import Mathlib.Tactic.Lemma
import Stencil.Cache

/-!
# What a cache holds

A cache forgets entries and moves them about, but it makes none up: what holds of every entry goes on to hold, as long
as it holds of what is stored (`Cache.Everywhere`).
-/

namespace Stencil

variable {κ α : Type}

lemma Table.mem_of_get?_eq_some [DecidableEq κ] {t : Table κ α} {k : κ} {v : α} (h : Table.get? t k = some v) :
    (k, v) ∈ t := by
  induction t with
  | nil => simp at h
  | cons entry rest ih =>
    rw [Table.get?] at h
    split at h
    · rename_i hkey
      rw [← hkey, ← Option.some.inj h]
      exact List.mem_cons_self
    · exact List.mem_cons_of_mem _ (ih h)

/-- If no two entries have one key, a key has no value but that of its entry. -/
lemma Table.get?_eq_some_iff_of_nodup [DecidableEq κ] {t : Table κ α} (hnodup : (t.map Prod.fst).Nodup) {k : κ}
    {v : α} : Table.get? t k = some v ↔ (k, v) ∈ t := by
  refine ⟨mem_of_get?_eq_some, fun hmem => ?_⟩
  induction t with
  | nil => exact absurd hmem List.not_mem_nil
  | cons first rest ih =>
    obtain ⟨key, value⟩ := first
    obtain ⟨hkey, hrest⟩ := List.nodup_cons.1 hnodup
    rw [Table.get?]
    rcases List.mem_cons.1 hmem with heq | hmem
    · obtain ⟨rfl, rfl⟩ := Prod.mk.inj heq
      rw [if_pos rfl]
    · have hne : key ≠ k := fun heq => hkey (heq ▸ List.mem_map.2 ⟨(k, v), hmem, rfl⟩)
      rw [if_neg hne, ih hrest hmem]

/-- Writing a value adds its key behind the others, unless it is there. -/
lemma Table.map_fst_set [DecidableEq κ] (t : Table κ α) (k : κ) (v : α) :
    (t.set k v).map Prod.fst = if k ∈ t.map Prod.fst then t.map Prod.fst else t.map Prod.fst ++ [k] := by
  induction t with
  | nil => rfl
  | cons entry rest ih =>
    obtain ⟨key, value⟩ := entry
    rw [Table.set]
    by_cases hkey : key = k
    · simp [hkey]
    · rw [if_neg hkey, List.map_cons, List.map_cons, ih]
      split
      · rename_i hmem
        rw [if_pos (List.mem_cons_of_mem _ hmem)]
      · rename_i hmem
        rw [if_neg (by simpa [Ne.symm hkey] using hmem)]
        rfl

namespace Cache

variable {p q : κ → α → Prop} {c : Cache κ α} {k : κ} {v : α}

/-- Whether something holds of every entry of a shard. -/
def InShard (p : κ → α → Prop) (shard : Shard κ α) : Prop := ∀ entry ∈ shard, p entry.1 entry.2

/-- Whether something holds of every entry. -/
def Everywhere (p : κ → α → Prop) (c : Cache κ α) : Prop := ∀ shard ∈ c.shards, InShard p shard

lemma everywhere_new (p : κ → α → Prop) (shardOf : κ → Nat) (capacity shards : Nat) :
    (new shardOf capacity shards).Everywhere p := by
  intro shard hshard entry hentry
  rw [List.eq_of_mem_replicate hshard] at hentry
  exact absurd hentry List.not_mem_nil

lemma Everywhere.imp (h : c.Everywhere p) (himp : ∀ k v, p k v → q k v) : c.Everywhere q :=
  fun shard hshard entry hentry => himp _ _ (h shard hshard entry hentry)

lemma Everywhere.shard (h : c.Everywhere p) (k : κ) : InShard p (c.shard k) := by
  rw [Cache.shard, List.getD_eq_getElem?_getD]
  cases hshard : c.shards[c.shardIndex k]? with
  | none => exact fun entry hentry => absurd hentry List.not_mem_nil
  | some shard => exact h shard (List.mem_of_getElem? hshard)

/-- What holds of all entries still does with a shard replaced, if it holds of the new one. -/
lemma Everywhere.withShard (h : c.Everywhere p) (k : κ) {shard : Shard κ α} (hshard : InShard p shard) :
    (c.withShard k shard).Everywhere p := by
  intro other hother
  rcases List.mem_or_eq_of_mem_set hother with hother | rfl
  · exact h other hother
  · exact hshard

variable [DecidableEq κ]

lemma inShard_touch {shard : Shard κ α} (h : InShard p shard) (hv : p k v) : InShard p (shard.touch k v) := by
  intro entry hentry
  rcases List.mem_cons.1 hentry with rfl | hentry
  · exact hv
  · exact h entry ((List.mem_filter.1 hentry).1)

/-- What is found in a cache holds as every entry does. -/
lemma Everywhere.of_lookup (h : c.Everywhere p) (hfound : (c.lookup k).1 = some v) : p k v := by
  unfold lookup at hfound
  split at hfound
  · rename_i value hget
    rw [← Option.some.inj hfound]
    exact h.shard k _ (Table.mem_of_get?_eq_some hget)
  · simp at hfound

lemma Everywhere.lookup (h : c.Everywhere p) (k : κ) : (c.lookup k).2.Everywhere p := by
  unfold Cache.lookup
  split
  · rename_i value hget
    exact h.withShard k (inShard_touch (h.shard k) (h.shard k _ (Table.mem_of_get?_eq_some hget)))
  · exact h

lemma Everywhere.store (h : c.Everywhere p) (hv : p k v) : (c.store k v).Everywhere p :=
  h.withShard k fun entry hentry => inShard_touch (h.shard k) hv entry (List.mem_of_mem_take hentry)

end Cache

end Stencil
