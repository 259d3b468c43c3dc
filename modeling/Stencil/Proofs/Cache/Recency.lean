import Mathlib.Algebra.Order.Floor.Div
import Mathlib.Data.Finset.Card
import Mathlib.Data.List.GetD
import Stencil.Proofs.Cache.Entries

/-!
# What a cache remembers

A cache forgets, but what it answers is told by what has happened to it and by nothing else: the value that was stored
last under a key, as long as less other keys of its shard have been used since than a shard has room for
(`answers_run`).

The proof compares a shard with the keys of its own that have been used since everything was dropped, latest first and
without any bound (`ranking`). A shard holds the first of them, as many as it has room for (`Reflects`).
-/

namespace Stencil

variable {κ α : Type} [DecidableEq κ]

lemma Table.isSome_get?_iff {t : Table κ α} {k : κ} : (Table.get? t k).isSome = true ↔ k ∈ t.map Prod.fst := by
  induction t with
  | nil => simp
  | cons entry rest ih =>
    obtain ⟨key, value⟩ := entry
    rw [Table.get?, List.map_cons, List.mem_cons, ← ih]
    split
    · rename_i hkey
      simp [hkey]
    · rename_i hkey
      simp [Ne.symm hkey]

namespace Cache

/-! ## Runs -/

/-- What a cache is asked to do. -/
inductive Request (κ α : Type) where
  | store (k : κ) (v : α)
  | lookup (k : κ)
  | clear

/-- What has happened to a cache: a request, and what was found if one was looking. -/
inductive Event (κ α : Type) where
  | stored (k : κ) (v : α)
  | looked (k : κ) (found : Option α)
  | cleared

/-- Whether a request looks for a key. -/
def Request.isLookup : Request κ α → Bool
  | lookup _ => true
  | store .. | clear => false

namespace Event

/-- The key that an event uses. To look for a key that is not found is no use of it. -/
def used? : Event κ α → Option κ
  | stored k _ => some k
  | looked k (some _) => some k
  | looked _ none | cleared => none

/-- Whether an event uses a key. -/
def uses (k : κ) (e : Event κ α) : Bool := e.used? = some k

/-- Whether a key was found. -/
def isHit : Event κ α → Bool
  | looked _ (some _) => true
  | looked _ none | stored .. | cleared => false

/-- Whether a key was not found. -/
def isMiss : Event κ α → Bool
  | looked _ none => true
  | looked _ (some _) | stored .. | cleared => false

end Event

/-- What a request brings about, and the cache behind it. -/
def perform (c : Cache κ α) : Request κ α → Event κ α × Cache κ α
  | .store k v => (.stored k v, c.store k v)
  | .lookup k => (.looked k (c.lookup k).1, (c.lookup k).2)
  | .clear => (.cleared, c.clear)

/-- What has happened behind one more request, latest first, and the cache behind it. -/
def proceed (behind : List (Event κ α) × Cache κ α) (request : Request κ α) : List (Event κ α) × Cache κ α :=
  ((behind.2.perform request).1 :: behind.1, (behind.2.perform request).2)

/-- What has happened behind some requests, latest first, and the cache behind them. -/
def run (c : Cache κ α) (requests : List (Request κ α)) : List (Event κ α) × Cache κ α :=
  requests.foldl proceed ([], c)

/-- The last request is performed on the cache that the others leave. -/
lemma run_concat (c : Cache κ α) (requests : List (Request κ α)) (request : Request κ α) :
    c.run (requests ++ [request]) =
      ([((c.run requests).2.perform request).1] ++ (c.run requests).1, ((c.run requests).2.perform request).2) := by
  rw [run, List.foldl_append]
  rfl

/-! ## The past -/

/-- The value stored last under a key since everything was dropped. -/
def latest? (k : κ) : List (Event κ α) → Option α
  | [] | .cleared :: _ => none
  | .stored key value :: past => if key = k then some value else latest? k past
  | .looked .. :: past => latest? k past

/-- The keys used since a key was used last. -/
def usedSince (k : κ) (past : List (Event κ α)) : List κ :=
  (past.takeWhile fun e => !e.uses k).filterMap Event.used?

/-- The different keys in the shard of a key that have been used since it was used last. -/
def rivals (place : κ → Nat) (k : κ) (past : List (Event κ α)) : Finset κ :=
  ((usedSince k past).filter fun key => place key = place k).toFinset

/-- A key in front of others. -/
def promote (k : κ) (keys : List κ) : List κ := k :: keys.filter (· ≠ k)

/-- The keys of a shard that have been used since everything was dropped, latest use first. -/
def ranking (place : κ → Nat) (i : Nat) : List (Event κ α) → List κ
  | [] | .cleared :: _ => []
  | .stored k _ :: past | .looked k (some _) :: past =>
    if place k = i then promote k (ranking place i past) else ranking place i past
  | .looked _ none :: past => ranking place i past

/-! ## Rankings -/

section

variable {k key : κ} {keys : List κ} {place : κ → Nat} {i : Nat} {past : List (Event κ α)} {v : α}

lemma mem_promote : key ∈ promote k keys ↔ key = k ∨ key ∈ keys := by
  by_cases hkey : key = k
  · simp [promote, hkey]
  · simp [promote, hkey]

lemma nodup_promote (h : keys.Nodup) : (promote k keys).Nodup :=
  List.nodup_cons.2 ⟨by simp, h.filter _⟩

lemma toFinset_promote : (promote k keys).toFinset = insert k keys.toFinset := by
  ext key
  rw [List.mem_toFinset, Finset.mem_insert, List.mem_toFinset, mem_promote]

/-- What stands in front of another key has the promoted one for its first. -/
lemma takeWhile_promote (h : key ≠ k) :
    (promote key keys).takeWhile (· ≠ k) = promote key (keys.takeWhile (· ≠ k)) := by
  have hpass : (fun a => !decide (a ≠ key) || decide (a ≠ k)) = fun a => decide (a ≠ k) := by
    funext a
    by_cases ha : a = key
    · simp [ha, h]
    · simp [ha]
  rw [promote, List.takeWhile_cons_of_pos (by simpa using h), List.takeWhile_filter, hpass, promote]

/-- A bounded row of keys with one of them, or a new one, put in front is the bounded row of all. -/
lemma take_filter_take (h : keys.Nodup) (n : Nat) :
    ((keys.take (n + 1)).filter (· ≠ k)).take n = (keys.filter (· ≠ k)).take n := by
  induction keys generalizing n with
  | nil => rfl
  | cons first rest ih =>
    obtain ⟨hfirst, hrest⟩ := List.nodup_cons.1 h
    rw [List.take_succ_cons]
    by_cases hkey : first = k
    · -- the key stands nowhere else, so nothing is left out but its one place
      subst hkey
      have hall : rest.filter (· ≠ first) = rest :=
        List.filter_eq_self.2 fun other hother => by
          simpa using fun heq : other = first => hfirst (heq ▸ hother)
      have htaken : (rest.take n).filter (· ≠ first) = rest.take n :=
        List.filter_eq_self.2 fun other hother => by
          simpa using fun heq : other = first => hfirst (heq ▸ List.mem_of_mem_take hother)
      rw [List.filter_cons_of_neg (by simp), List.filter_cons_of_neg (by simp), hall, htaken, List.take_take,
        Nat.min_self]
    · rw [List.filter_cons_of_pos (by simpa using hkey), List.filter_cons_of_pos (by simpa using hkey)]
      cases n with
      | zero => rfl
      | succ n => rw [List.take_succ_cons, List.take_succ_cons, ih hrest]

lemma take_promote_take (h : keys.Nodup) {room : Nat} (hroom : 0 < room) :
    (promote k (keys.take room)).take room = (promote k keys).take room := by
  obtain ⟨n, rfl⟩ := Nat.exists_eq_succ_of_ne_zero (Nat.ne_of_gt hroom)
  rw [promote, promote, List.take_succ_cons, List.take_succ_cons, take_filter_take h]

lemma length_promote_of_mem (h : keys.Nodup) (hk : k ∈ keys) : (promote k keys).length = keys.length := by
  have hcard : (promote k keys).toFinset.card = keys.toFinset.card := by
    rw [toFinset_promote, Finset.insert_eq_self.2 (List.mem_toFinset.2 hk)]
  rwa [List.toFinset_card_of_nodup (nodup_promote h), List.toFinset_card_of_nodup h] at hcard

/-- A key has a place in a bounded row if it has one at all and less keys than the bound stand in front of it. -/
lemma mem_take_iff {room : Nat} : k ∈ keys.take room ↔ k ∈ keys ∧ (keys.takeWhile (· ≠ k)).length < room := by
  induction keys generalizing room with
  | nil => simp
  | cons first rest ih =>
    cases room with
    | zero => simp
    | succ room =>
      by_cases hkey : first = k
      · simp [hkey]
      · have hne : k ≠ first := fun h => hkey h.symm
        simp [hkey, hne, ih]

/-! ### The ranking of a past -/

/-- The key that was used last goes to the front of the ranking of its shard; the others stay. -/
lemma ranking_cons_of_used {e : Event κ α} (h : e.used? = some k) :
    ranking place i (e :: past) = if place k = i then promote k (ranking place i past) else ranking place i past := by
  rcases e with ⟨_, _⟩ | ⟨_, _ | _⟩ | _
  · rw [← Option.some.inj h, ranking]
  · cases h
  · rw [← Option.some.inj h, ranking]
  · cases h

/-- A ranking has no key twice. -/
lemma nodup_ranking (place : κ → Nat) (i : Nat) (past : List (Event κ α)) : (ranking place i past).Nodup := by
  induction past with
  | nil => exact List.nodup_nil
  | cons e past ih =>
    cases hused : e.used? with
    | some k =>
      rw [ranking_cons_of_used hused]
      split
      · exact nodup_promote ih
      · exact ih
    | none =>
      rcases e with ⟨_, _⟩ | ⟨_, _ | _⟩ | _
      · cases hused
      · exact ih
      · cases hused
      · exact List.nodup_nil

/-- The ranking of a shard has only keys of this shard. -/
lemma place_of_mem_ranking (h : k ∈ ranking place i past) : place k = i := by
  induction past with
  | nil => exact absurd h List.not_mem_nil
  | cons e past ih =>
    cases hused : e.used? with
    | some key =>
      rw [ranking_cons_of_used hused] at h
      split at h
      · rename_i hplace
        rcases mem_promote.1 h with rfl | h
        · exact hplace
        · exact ih h
      · exact ih h
    | none =>
      rcases e with ⟨_, _⟩ | ⟨_, _ | _⟩ | _
      · cases hused
      · exact ih h
      · cases hused
      · exact absurd h List.not_mem_nil

/-- The use of another key of the same shard makes it a rival. -/
lemma rivals_cons_of_used {e : Event κ α} (h : e.used? = some key) (hkey : key ≠ k) :
    rivals place k (e :: past) =
      if place key = place k then insert key (rivals place k past) else rivals place k past := by
  rw [rivals, usedSince, List.takeWhile_cons_of_pos (by simpa [Event.uses, h] using hkey), List.filterMap_cons_some h,
    ← usedSince]
  by_cases hplace : place key = place k
  · rw [if_pos hplace, List.filter_cons_of_pos (by simpa using hplace), List.toFinset_cons, ← rivals]
  · rw [if_neg hplace, List.filter_cons_of_neg (by simpa using hplace), ← rivals]

lemma rivals_cons_of_same {e : Event κ α} (h : e.used? = some k) : rivals place k (e :: past) = ∅ := by
  rw [rivals, usedSince, List.takeWhile_cons_of_neg (by simp [Event.uses, h])]
  rfl

lemma rivals_cons_of_unused {e : Event κ α} (h : e.used? = none) :
    rivals place k (e :: past) = rivals place k past := by
  rw [rivals, usedSince, List.takeWhile_cons_of_pos (by simp [Event.uses, h]), List.filterMap_cons_none h]
  rfl

/-- What stands in front of a key that something has been stored under are the other keys used since. -/
lemma toFinset_takeWhile_ranking (h : latest? k past = some v) :
    ((ranking place (place k) past).takeWhile (· ≠ k)).toFinset = rivals place k past := by
  induction past with
  | nil => cases h
  | cons e past ih =>
    -- whichever way a key is used, it is put in front
    have hcase : ∀ key, e.used? = some key → (key ≠ k → latest? k past = some v) →
        ((ranking place (place k) (e :: past)).takeWhile (· ≠ k)).toFinset = rivals place k (e :: past) := by
      intro key hused hpast
      rw [ranking_cons_of_used hused]
      by_cases hkey : key = k
      · subst hkey
        rw [if_pos rfl, rivals_cons_of_same hused, promote, List.takeWhile_cons_of_neg (by simp)]
        rfl
      · rw [rivals_cons_of_used hused hkey, ← ih (hpast hkey)]
        split
        · rw [takeWhile_promote hkey, toFinset_promote]
        · rfl
    rcases e with ⟨key, value⟩ | ⟨key, _ | found⟩ | _
    · refine hcase key rfl fun hkey => ?_
      rwa [latest?, if_neg hkey] at h
    · rw [rivals_cons_of_unused rfl]
      exact ih h
    · exact hcase key rfl fun _ => h
    · cases h

end

/-! ## Shards -/

/-- Rows of at most `n` entries have together at most `n` for each row. -/
lemma length_flatten_le {β : Type} {rows : List (List β)} {n : Nat} (h : ∀ row ∈ rows, row.length ≤ n) :
    rows.flatten.length ≤ rows.length * n := by
  induction rows with
  | nil => exact Nat.zero_le _
  | cons row rows ih =>
    obtain ⟨hrow, hrows⟩ := List.forall_mem_cons.1 h
    have hrest := ih hrows
    rw [List.flatten_cons, List.length_append, List.length_cons, Nat.add_mul, Nat.one_mul]
    omega

variable {place : κ → Nat} {room count i : Nat} {past : List (Event κ α)} {k key : κ} {v : α} {c : Cache κ α}

/-- Whether a shard holds the keys of its own that have been used last, as many as there is room for, with the values
that were stored last under them. -/
structure Holds (place : κ → Nat) (room i : Nat) (past : List (Event κ α)) (shard : Shard κ α) : Prop where
  keys : shard.map Prod.fst = (ranking place i past).take room
  values : InShard (fun k v => latest? k past = some v) shard

lemma Holds.latest?_eq {shard : Shard κ α} (h : Holds place room i past shard) {entry : κ × α}
    (hentry : entry ∈ shard) : latest? entry.1 past = some entry.2 := h.values entry hentry

lemma map_fst_touch (shard : Shard κ α) (k : κ) (v : α) :
    (shard.touch k v).map Prod.fst = promote k (shard.map Prod.fst) := by
  rw [Shard.touch, List.map_cons, Table.erase, promote, List.filter_map]
  rfl

/-- The use of another key does not change the latest value. -/
lemma latest?_cons_of_ne {e : Event κ α} (h : e.used? = some key) (hkey : key ≠ k) :
    latest? k (e :: past) = latest? k past := by
  rcases e with ⟨_, _⟩ | ⟨_, _ | _⟩ | _
  · rw [latest?, Option.some.inj h, if_neg hkey]
  · cases h
  · rfl
  · cases h

section

variable {shard : Shard κ α} {e : Event κ α}

lemma Holds.place_eq (h : Holds place room i past shard) {entry : κ × α} (hentry : entry ∈ shard) :
    place entry.1 = i := by
  have hmem : entry.1 ∈ (ranking place i past).take room := h.keys ▸ List.mem_map_of_mem hentry
  exact place_of_mem_ranking (List.mem_of_mem_take hmem)

/-- What is used in another shard does not matter. -/
lemma Holds.used_elsewhere (h : Holds place room i past shard) (hused : e.used? = some key) (hplace : place key ≠ i) :
    Holds place room i (e :: past) shard := by
  refine ⟨?_, fun entry hentry => ?_⟩
  · rw [ranking_cons_of_used hused, if_neg hplace]
    exact h.keys
  · have hkey : key ≠ entry.1 := fun heq => hplace (heq ▸ h.place_eq hentry)
    exact (latest?_cons_of_ne hused hkey).trans (h.latest?_eq hentry)

/-- A key that is used is stored in front with the value that it has by now. -/
lemma Holds.used_here (h : Holds place room i past shard) (hroom : 0 < room) (hused : e.used? = some k)
    (hplace : place k = i) (hvalue : latest? k (e :: past) = some v) :
    Holds place room i (e :: past) (shard.store room k v) := by
  refine ⟨?_, fun entry hentry => ?_⟩
  · rw [ranking_cons_of_used hused, if_pos hplace, Shard.store, List.map_take, map_fst_touch, h.keys,
      take_promote_take (nodup_ranking place i past) hroom]
  · rcases List.mem_cons.1 (List.mem_of_mem_take hentry) with rfl | hentry
    · exact hvalue
    · obtain ⟨hold, hkey⟩ := List.mem_filter.1 hentry
      exact (latest?_cons_of_ne hused (Ne.symm (of_decide_eq_true hkey))).trans (h.latest?_eq hold)

/-- A key that is there already is put in front without any other key making room. -/
lemma Holds.touch_eq_store (h : Holds place room i past shard) (hk : k ∈ shard.map Prod.fst) (v : α) :
    shard.touch k v = shard.store room k v := by
  have hnodup : (shard.map Prod.fst).Nodup := h.keys ▸ (nodup_ranking place i past).sublist (List.take_sublist _ _)
  have hlength : (shard.touch k v).length = shard.length := by
    rw [← List.length_map Prod.fst, map_fst_touch, length_promote_of_mem hnodup hk, List.length_map]
  have hbound : shard.length ≤ room := by
    rw [← List.length_map Prod.fst, h.keys]
    exact List.length_take_le _ _
  rw [Shard.store, List.take_of_length_le (by omega)]

end

/-! ## Caches -/

/-- Whether the entries of a cache are what the past makes of them: each shard holds what was used last in it, and every
key that something is stored under has its place in a ranking. -/
structure Reflects (place : κ → Nat) (count room : Nat) (past : List (Event κ α)) (c : Cache κ α) : Prop where
  index : ∀ k, c.shardIndex k = place k
  capacity : c.shardCapacity = room
  length : c.shards.length = count
  shards : ∀ i < count, Holds place room i past (c.shards.getD i [])
  ranked : ∀ k, (latest? k past).isSome = true → k ∈ ranking place (place k) past

lemma lookup_fst (c : Cache κ α) (k : κ) : (c.lookup k).1 = Table.get? (c.shard k) k := by
  unfold lookup
  split
  · rename_i value hget
    exact hget.symm
  · rename_i hget
    exact hget.symm

omit [DecidableEq κ] in
/-- To replace one shard leaves the others. -/
lemma getD_withShard (c : Cache κ α) (k : κ) (shard : Shard κ α) (hi : i < c.shards.length) :
    (c.withShard k shard).shards.getD i [] = if c.shardIndex k = i then shard else c.shards.getD i [] := by
  rw [withShard, List.getD_eq_getElem?_getD, List.getElem?_set, List.getD_eq_getElem?_getD]
  by_cases hindex : c.shardIndex k = i
  · rw [if_pos hindex, if_pos hindex, if_pos (hindex ▸ hi)]
    rfl
  · rw [if_neg hindex, if_neg hindex]

namespace Reflects

section

variable (h : Reflects place count room past c)

include h

lemma shard (hplace : place k < count) : Holds place room (place k) past (c.shard k) := by
  have hshard := h.shards (place k) hplace
  rwa [← h.index k, ← Cache.shard, h.index k] at hshard

/-- What a cache answers is told by the past. -/
lemma lookup_eq (hplace : place k < count) :
    (c.lookup k).1 = if (rivals place k past).card < room then latest? k past else none := by
  have hshard := h.shard hplace
  have hfound : (c.lookup k).1.isSome = true ↔
      k ∈ ranking place (place k) past ∧
        ((ranking place (place k) past).takeWhile (· ≠ k)).length < room := by
    rw [lookup_fst, Table.isSome_get?_iff, hshard.keys, mem_take_iff]
  cases hlatest : latest? k past with
  | none =>
    have hnone : (c.lookup k).1 = none := by
      refine Option.eq_none_iff_forall_ne_some.2 fun v hv => ?_
      have hvalue := hshard.latest?_eq (Table.mem_of_get?_eq_some (lookup_fst c k ▸ hv))
      rw [hlatest] at hvalue
      cases hvalue
    rw [hnone, ite_self]
  | some v =>
    have hranked := h.ranked k (by rw [hlatest]; rfl)
    have hnodup := (nodup_ranking place (place k) past).sublist (List.takeWhile_sublist (· ≠ k))
    -- the keys ranked in front of the one that is looked up are its rivals
    have hcard : (rivals place k past).card = ((ranking place (place k) past).takeWhile (· ≠ k)).length := by
      rw [← toFinset_takeWhile_ranking hlatest, List.toFinset_card_of_nodup hnodup]
    rw [hcard]
    split
    · rename_i hlt
      obtain ⟨value, hvalue⟩ := Option.isSome_iff_exists.1 (hfound.2 ⟨hranked, hlt⟩)
      have hkept := hshard.latest?_eq (Table.mem_of_get?_eq_some (lookup_fst c k ▸ hvalue))
      rw [hvalue, ← hkept, hlatest]
    · rename_i hge
      exact Option.not_isSome_iff_eq_none.1 fun hsome => hge (hfound.1 hsome).2

lemma length_le {shard : Shard κ α} (hshard : shard ∈ c.shards) : shard.length ≤ room := by
  obtain ⟨i, hi, rfl⟩ := List.getElem_of_mem hshard
  have hholds := h.shards i (h.length ▸ hi)
  rw [List.getD_eq_getElem _ _ hi] at hholds
  rw [← List.length_map Prod.fst, hholds.keys]
  exact List.length_take_le _ _

lemma size_le : c.size ≤ count * room := by
  rw [size, ← h.length]
  exact length_flatten_le fun _ hshard => h.length_le hshard

/-- A key that is used takes the first place in its shard. -/
lemma used {e : Event κ α} (hroom : 0 < room) (hplace : place k < count) (hused : e.used? = some k)
    (hvalue : latest? k (e :: past) = some v) :
    Reflects place count room (e :: past) (c.withShard k ((c.shard k).store room k v)) := by
  have hlength : (c.withShard k ((c.shard k).store room k v)).shards.length = c.shards.length := List.length_set
  refine ⟨fun key => ?_, h.capacity, hlength.trans h.length, fun i hi => ?_, fun key hkey => ?_⟩
  · have hindex := h.index key
    rw [shardIndex, hlength]
    exact hindex
  · rw [getD_withShard c k _ (h.length ▸ hi), h.index]
    split
    · rename_i hhere
      exact hhere ▸ (h.shard hplace).used_here hroom hused rfl hvalue
    · rename_i helsewhere
      exact (h.shards i hi).used_elsewhere hused helsewhere
  · rw [ranking_cons_of_used hused]
    by_cases hsame : key = k
    · subst hsame
      rw [if_pos rfl]
      exact mem_promote.2 (.inl rfl)
    · rw [latest?_cons_of_ne hused (Ne.symm hsame)] at hkey
      have hranked := h.ranked key hkey
      split
      · exact mem_promote.2 (.inr hranked)
      · exact hranked

/-- After a lookup the cache reflects it, with its answer as an event. -/
lemma lookup (hroom : 0 < room) (hplace : place k < count) :
    Reflects place count room (.looked k (c.lookup k).1 :: past) (c.lookup k).2 := by
  unfold Cache.lookup
  split
  · rename_i value hget
    have hvalue := (h.shard hplace).latest?_eq (Table.mem_of_get?_eq_some hget)
    have hk : k ∈ (c.shard k).map Prod.fst := Table.isSome_get?_iff.1 (Option.isSome_of_eq_some hget)
    rw [(h.shard hplace).touch_eq_store hk]
    have hfound : Reflects place count room (.looked k (some value) :: past)
        (c.withShard k ((c.shard k).store room k value)) := h.used hroom hplace rfl hvalue
    exact ⟨hfound.index, hfound.capacity, hfound.length, hfound.shards, hfound.ranked⟩
  · -- what is not found is no use, and nothing moves
    exact ⟨h.index, h.capacity, h.length, fun i hi => ⟨(h.shards i hi).keys, (h.shards i hi).values⟩, h.ranked⟩

/-- After a clear the cache reflects that nothing is left. -/
lemma cleared : Reflects place count room (.cleared :: past) c.clear := by
  have hlength : c.clear.shards.length = c.shards.length := List.length_map _
  refine ⟨fun key => ?_, h.capacity, hlength.trans h.length, fun i hi => ?_, fun key hkey => ?_⟩
  · have hindex := h.index key
    rw [shardIndex, hlength]
    exact hindex
  · have hempty : c.clear.shards.getD i [] = [] := by
      rw [clear, List.getD_eq_getElem?_getD, List.getElem?_map]
      cases c.shards[i]? <;> rfl
    rw [hempty]
    exact ⟨List.take_nil.symm, fun entry hentry => absurd hentry List.not_mem_nil⟩
  · cases hkey

/-- A request leaves a cache that is again what the past makes of it. -/
lemma perform (hroom : 0 < room) (hplace : ∀ k, place k < count) (request : Request κ α) :
    Reflects place count room ((c.perform request).1 :: past) (c.perform request).2 := by
  cases request with
  | store k v =>
    have hstored : Reflects place count room (.stored k v :: past) (c.withShard k ((c.shard k).store room k v)) :=
      h.used hroom (hplace k) rfl (by rw [latest?, if_pos rfl])
    rw [← h.capacity] at hstored ⊢
    exact hstored
  | lookup k => exact h.lookup hroom (hplace k)
  | clear => exact h.cleared

end

/-- A new cache has no past. -/
lemma new (shardOf : κ → Nat) (capacity shards : Nat) :
    Reflects (fun k => shardOf k % max 1 shards) (max 1 shards) (share capacity (max 1 shards)) ([] : List (Event κ α))
      (.new shardOf capacity shards) := by
  have hlength : (Cache.new shardOf capacity shards : Cache κ α).shards.length = max 1 shards := List.length_replicate
  refine ⟨fun k => ?_, rfl, hlength, fun i hi => ?_, fun k hk => ?_⟩
  · rw [shardIndex, hlength]
    rfl
  · have hempty : (Cache.new shardOf capacity shards : Cache κ α).shards.getD i [] = [] := by
      rw [Cache.new, List.getD_eq_getElem?_getD, List.getElem?_replicate]
      split <;> rfl
    rw [hempty]
    exact ⟨List.take_nil.symm, fun entry hentry => absurd hentry List.not_mem_nil⟩
  · cases hk

/-- After any requests, a cache is what they have made of it. -/
lemma run (h : Reflects place count room ([] : List (Event κ α)) c) (hroom : 0 < room)
    (hplace : ∀ k, place k < count) (requests : List (Request κ α)) :
    Reflects place count room (c.run requests).1 (c.run requests).2 := by
  induction requests using List.reverseRecOn with
  | nil => exact h
  | append_singleton requests request ih =>
    rw [run_concat]
    exact ih.perform hroom hplace request

end Reflects

/-! ## Counting -/

/-- A request adds to the counters what it has found and what it has not. -/
lemma counts_perform (c : Cache κ α) (request : Request κ α) :
    (c.perform request).2.found = c.found + .ofNat ([(c.perform request).1].countP Event.isHit) ∧
      (c.perform request).2.missed = c.missed + .ofNat ([(c.perform request).1].countP Event.isMiss) := by
  have hnone : ∀ n : UInt64, n = n + .ofNat 0 := fun n => (UInt64.add_zero n).symm
  cases request with
  | store k v => exact ⟨hnone _, hnone _⟩
  | lookup k =>
    rw [Cache.perform]
    unfold Cache.lookup
    split
    · exact ⟨rfl, hnone _⟩
    · exact ⟨hnone _, rfl⟩
  | clear => exact ⟨hnone _, hnone _⟩

/-- The two counters have been raised once for each hit and each miss of the run, modulo the size of a word. -/
lemma counts_run (c : Cache κ α) (requests : List (Request κ α)) :
    (c.run requests).2.found = c.found + .ofNat ((c.run requests).1.countP Event.isHit) ∧
      (c.run requests).2.missed = c.missed + .ofNat ((c.run requests).1.countP Event.isMiss) := by
  induction requests using List.reverseRecOn with
  | nil => exact ⟨(UInt64.add_zero _).symm, (UInt64.add_zero _).symm⟩
  | append_singleton requests request ih =>
    obtain ⟨hhits, hmisses⟩ := counts_perform (c.run requests).2 request
    rw [run_concat, List.countP_append, List.countP_append, Nat.add_comm, UInt64.ofNat_add, ← UInt64.add_assoc, ← ih.1,
      Nat.add_comm, UInt64.ofNat_add, ← UInt64.add_assoc, ← ih.2]
    exact ⟨hhits, hmisses⟩

/-- Whoever looks for a key has found it or has not. -/
lemma countP_run (c : Cache κ α) (requests : List (Request κ α)) :
    (c.run requests).1.countP Event.isHit + (c.run requests).1.countP Event.isMiss =
      requests.countP Request.isLookup := by
  induction requests using List.reverseRecOn with
  | nil => rfl
  | append_singleton requests request ih =>
    have hone : [((c.run requests).2.perform request).1].countP Event.isHit +
        [((c.run requests).2.perform request).1].countP Event.isMiss = [request].countP Request.isLookup := by
      cases request with
      | store k v => rfl
      | lookup k =>
        rw [perform]
        cases ((c.run requests).2.lookup k).1 <;> rfl
      | clear => rfl
    rw [run_concat, List.countP_append, List.countP_append, List.countP_append]
    omega

/-- What a cache answers after any requests, how many entries it has, and what it has counted. A key has the value
stored last under it since everything was dropped, if less other keys of its shard have been stored or found since it
was stored or found itself than a shard has room for; and else it has none. All shards together never hold more than
what each has room for. Every lookup is counted once, as one that has found its key or as one that has not, modulo the
numbers of a word: the counts are exact as long as there are fewer lookups than that. -/
theorem answers_run (shardOf : κ → Nat) (capacity shards : Nat) (requests : List (Request κ α)) :
    let count := max 1 shards
    let room := max 1 (capacity ⌈/⌉ count)
    let past := ((new shardOf capacity shards : Cache κ α).run requests).1
    let c := ((new shardOf capacity shards : Cache κ α).run requests).2
    (∀ k, (c.lookup k).1 =
      if (rivals (fun key => shardOf key % count) k past).card < room then latest? k past else none) ∧
    c.size ≤ count * room ∧
    c.hits = past.countP Event.isHit % Word.size ∧ c.misses = past.countP Event.isMiss % Word.size ∧
    past.countP Event.isHit + past.countP Event.isMiss = requests.countP Request.isLookup ∧
    (requests.countP Request.isLookup < Word.size →
      c.hits = past.countP Event.isHit ∧ c.misses = past.countP Event.isMiss ∧
        c.hits + c.misses = requests.countP Request.isLookup) := by
  intro count room past c
  have hroom : 0 < room := Nat.lt_of_lt_of_le Nat.one_pos (Nat.le_max_left _ _)
  have hplace : ∀ k, shardOf k % count < count := fun k =>
    Nat.mod_lt _ (Nat.lt_of_lt_of_le Nat.one_pos (Nat.le_max_left _ _))
  -- a new cache reflects that nothing was asked, and every request keeps that the cache reflects the past
  have hreflects : Reflects (fun key => shardOf key % count) count room past c :=
    (Reflects.new shardOf capacity shards).run hroom hplace requests
  have hlookups : past.countP Event.isHit + past.countP Event.isMiss = requests.countP Request.isLookup :=
    countP_run _ requests
  obtain ⟨hfound, hmissed⟩ := counts_run (new shardOf capacity shards : Cache κ α) requests
  have hhits : c.hits = past.countP Event.isHit % Word.size := by
    rw [hits, hfound]
    exact congrArg UInt64.toNat (UInt64.zero_add _)
  have hmisses : c.misses = past.countP Event.isMiss % Word.size := by
    rw [misses, hmissed]
    exact congrArg UInt64.toNat (UInt64.zero_add _)
  refine ⟨fun k => hreflects.lookup_eq (hplace k), hreflects.size_le, hhits, hmisses, hlookups, fun hfew => ?_⟩
  have hhitsExact : c.hits = past.countP Event.isHit := hhits.trans (Nat.mod_eq_of_lt (by omega))
  have hmissesExact : c.misses = past.countP Event.isMiss := hmisses.trans (Nat.mod_eq_of_lt (by omega))
  exact ⟨hhitsExact, hmissesExact, by rw [hhitsExact, hmissesExact, hlookups]⟩

end Cache

end Stencil
