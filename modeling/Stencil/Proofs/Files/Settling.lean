import Mathlib.Data.List.Basic
import Stencil.Files.Confinement
import Stencil.Proofs.Files.Following

/-!
# Locations with links followed

Settling a location follows the links on the longest part of it that is found and keeps the rest as it is
(`settle?_eq`). There are two things to say about it.

* What it yields has a link on the way only if one was overlooked (`exists_isLink_iff_overlooked`): it stands where the
  location is too long to be asked for. The path of what is settled leads to it if no link is on the way, and else
  elsewhere (`eq_iff_of_locate_text`).
* It yields nothing only at a link that leads to nothing, that never stops leading to others, or that leads through
  more links than are followed, or where a place on the way has a path that is too long (`blocked_of_settle?_eq_none`).
-/

namespace Stencil.Files

/-! ## The path to a location -/

namespace Location

lemma isAbsolute_text (l : Location) : isAbsolute l.text = true := by
  cases l <;> simp [isAbsolute, text]

lemma text_of_ne_nil {l : Location} (h : l ≠ []) : l.text = l.flatMap ('/' :: ·) := by
  rw [text, List.isEmpty_eq_false_iff.2 h]
  rfl

/-- The steps of the path to a location are its names, behind an empty step. -/
lemma steps_text {l : Location} (hl : Location.Proper l) (hne : l ≠ []) : steps l.text = [] :: l := by
  have hseparator : ∀ {name : Text}, '/' ∉ name → ∀ c ∈ name, (c == '/') = false := by
    intro name hname c hc
    simpa using fun heq : c = '/' => hname (heq ▸ hc)
  have hsplit : ∀ (name : Text) (l : Location), '/' ∉ name → Location.Proper l →
      Text.split (· == '/') (name ++ l.flatMap ('/' :: ·)) = name :: l := by
    intro name l hname hl
    induction l generalizing name with
    | nil => simpa using Text.split_of_forall (hseparator hname)
    | cons next l ih =>
      have hnext := Proper.slash_not_mem hl next List.mem_cons_self
      rw [List.flatMap_cons, List.cons_append, Text.split_append_cons (hseparator hname) rfl,
        ih next hnext (Proper.of_subset hl fun _ => List.mem_cons_of_mem _)]
  rw [steps, text_of_ne_nil hne, ← List.nil_append (l.flatMap _), hsplit [] l List.not_mem_nil hl]

/-- A part of a location has no longer path than the location. -/
lemma byteLength_text_le {q l : Location} (h : q <+: l) : Text.byteLength q.text ≤ Text.byteLength l.text := by
  obtain ⟨rest, rfl⟩ := h
  by_cases hq : q = []
  · -- the path to the root is the one character that every path has
    subst hq
    have hpos : 0 < (text rest).length := by cases rest <;> simp [text]
    exact Nat.lt_of_lt_of_le hpos (Text.length_le_byteLength _)
  · rw [text_of_ne_nil hq, text_of_ne_nil (by simp [hq]), List.flatMap_append, Text.byteLength_append]
    exact Nat.le_add_right _ _

end Location

namespace Tree

variable {tree : Tree}

lemma fits_nil : Fits [] := by decide

lemma Fits.of_prefix {q l : Location} (h : Fits l) (hq : q <+: l) : Fits q :=
  Nat.le_trans (Location.byteLength_text_le hq) h

/-! ## What is found -/

/-- What is found at a location by its path, a link at its end not followed. -/
def status? (tree : Tree) (l : Location) : Option Entry :=
  match l.getLast? with
  | none => some .directory
  | some name => tree.standing? l.dropLast name

@[simp] lemma status?_nil : tree.status? [] = some .directory := rfl

@[simp] lemma status?_concat (l : Location) (name : Text) : tree.status? (l ++ [name]) = tree.standing? l name := by
  simp [status?]

/-- What stands beneath a parent is found where the links of the parent lead to, under a name that is not too long. -/
lemma beneath?_eq_some {parent : Location} {name : Text} {e : Entry} (h : tree.beneath? parent name = some e) :
    ∃ place, tree.follow maxLinks [] parent = .ok (place, some .directory) ∧ ¬ maxName < Text.byteLength name ∧
      tree.get? (place ++ [name]) = some e := by
  unfold beneath? at h
  split at h
  · rename_i place hfollow
    split at h
    · simp at h
    · rename_i hlength
      exact ⟨place, hfollow, hlength, h⟩
  · simp at h

/-- Beneath a grounded location stands what the tree has there. -/
lemma beneath?_of_grounded {here : Location} {name : Text} (h : tree.Grounded here)
    (hshort : ¬ maxName < Text.byteLength name) : tree.beneath? here name = tree.get? (here ++ [name]) := by
  rw [beneath?, follow_grounded_self h]
  exact if_neg hshort

/-- What is seen at a location is what stands there, if the location fits into a path. -/
lemma standing?_eq_some {parent : Location} {name : Text} {e : Entry} :
    tree.standing? parent name = some e ↔ Fits (parent ++ [name]) ∧ tree.beneath? parent name = some e := by
  unfold standing?
  split
  · rename_i hfits
    exact ⟨fun h => ⟨hfits, h⟩, fun h => h.2⟩
  · rename_i hlong
    exact ⟨fun h => by simp at h, fun h => absurd h.1 hlong⟩

/-- Only what has a path that is short enough is found. -/
lemma fits_of_status? {l : Location} (h : (tree.status? l).isSome) : Fits l := by
  obtain rfl | ⟨parent, name, rfl⟩ := List.eq_nil_or_concat' l
  · exact fits_nil
  · obtain ⟨e, hstatus⟩ := Option.isSome_iff_exists.1 h
    rw [status?_concat] at hstatus
    exact (standing?_eq_some.1 hstatus).1

/-- The longest part of a location that is found. -/
structure LongestExisting (tree : Tree) (l p : Location) : Prop where
  is_part : p <+: l
  exists_status : (tree.status? p).isSome
  longest : ∀ q, q <+: l → (tree.status? q).isSome → q.length ≤ p.length

lemma LongestExisting.unique {l p p' : Location} (h : tree.LongestExisting l p) (h' : tree.LongestExisting l p') :
    p = p' := by
  have hle := h.longest p' h'.is_part h'.exists_status
  have hge := h'.longest p h.is_part h.exists_status
  exact (List.prefix_of_prefix_length_le h.is_part h'.is_part hge).eq_of_length (by omega)

/-- Settling a location follows the links on the longest part of it that is found. -/
lemma settleReversed?_eq (names : List Text) :
    ∃ p rest, names.reverse = p ++ rest ∧ tree.LongestExisting names.reverse p ∧
      tree.settleReversed? names = (tree.real? p).map (· ++ rest) := by
  induction names with
  | nil =>
    refine ⟨[], [], rfl, ⟨List.prefix_rfl, rfl, fun q hq _ => ?_⟩, by simp [settleReversed?]⟩
    exact hq.length_le
  | cons name outer ih =>
    rw [List.reverse_cons, settleReversed?]
    -- the whole location is found, or its longest part that is found is that of the location around it
    by_cases hoccupied : tree.isOccupied outer.reverse name = true
    · rw [if_pos hoccupied]
      refine ⟨outer.reverse ++ [name], [], by simp, ⟨List.prefix_rfl, ?_, fun q hq _ => hq.length_le⟩, by simp⟩
      rw [status?_concat]
      exact hoccupied
    · rw [if_neg hoccupied]
      obtain ⟨p, rest, heq, hp, hsettle⟩ := ih
      refine ⟨p, rest ++ [name], by rw [heq, List.append_assoc], ⟨?_, hp.exists_status, fun q hq hexists => ?_⟩, ?_⟩
      · exact hp.is_part.trans (List.prefix_append _ _)
      · rcases List.prefix_concat_iff.1 hq with rfl | hq
        · rw [status?_concat] at hexists
          exact absurd hexists hoccupied
        · exact hp.longest q hq hexists
      · rw [hsettle, Option.map_map]
        simp [Function.comp_def]

theorem settle?_eq (l : Location) :
    ∃ p rest, l = p ++ rest ∧ tree.LongestExisting l p ∧ tree.settle? l = (tree.real? p).map (· ++ rest) := by
  obtain ⟨p, rest, heq, hp, hsettle⟩ := tree.settleReversed?_eq l.reverse
  rw [List.reverse_reverse] at heq hp
  exact ⟨p, rest, heq, hp, hsettle⟩

/-- The location behind all links is found if and only if the path to it, and to every place on the way, is short enough
and something is there. -/
lemma real?_eq_some {l real : Location} :
    tree.real? l = some real ↔
      Fits l ∧ tree.followFits maxLinks [] l = true ∧ ∃ e, tree.follow maxLinks [] l = .ok (real, some e) := by
  unfold real?
  split
  · rename_i hfits
    split
    · rename_i place e hfollow
      simp [hfits, hfollow]
    · rename_i hnone
      refine ⟨by simp, fun ⟨_, _, e, hfollow⟩ => ?_⟩
      exact absurd hfollow (hnone real e)
  · rename_i hlong
    exact ⟨by simp, fun h => absurd ⟨h.1, h.2.1⟩ hlong⟩

/-- Where a location leads is reached. -/
lemma reached_of_real? {l real : Location} (hl : l.Proper) (h : tree.real? l = some real) :
    ∃ e, tree.follow maxLinks [] l = .ok (real, some e) ∧ tree.Reached real (some e) := by
  obtain ⟨-, -, e, hfollow⟩ := real?_eq_some.1 h
  exact ⟨e, hfollow, reached_of_follow Grounded.nil (Location.Proper.slash_not_mem hl) hfollow⟩

/-! ## Links on the way -/

/-- Whether a location is a symbolic link. -/
def IsLink (tree : Tree) (l : Location) : Prop :=
  ∃ parent name target, l = parent ++ [name] ∧ tree.beneath? parent name = some (.link target)

/-- A location is a link if one stands beneath its parent under its last name. -/
lemma isLink_concat_iff {parent : Location} {name : Text} :
    tree.IsLink (parent ++ [name]) ↔ ∃ target, tree.beneath? parent name = some (.link target) := by
  constructor
  · rintro ⟨parent', name', target, heq, hbeneath⟩
    obtain ⟨rfl, hname⟩ := List.append_inj' heq rfl
    obtain rfl := List.singleton_inj.1 hname
    exact ⟨target, hbeneath⟩
  · rintro ⟨target, hbeneath⟩
    exact ⟨parent, name, target, rfl, hbeneath⟩

/-- The root is no link. -/
lemma not_isLink_nil : ¬ tree.IsLink [] := by
  rintro ⟨parent, name, target, heq, -⟩
  exact absurd heq (by simp)

/-- No part of a straight location is a link. -/
lemma not_isLink_of_straight {l q : Location} (hl : l.Proper) (h : tree.Straight [] l) (hq : q <+: l) :
    ¬ tree.IsLink q := by
  rintro ⟨parent, name, target, rfl, hbeneath⟩
  -- what stands at the name is behind a directory that the steps before lead to
  obtain ⟨place, hfollow, hlength, hentry⟩ := beneath?_eq_some hbeneath
  obtain ⟨rest, rfl⟩ := hq
  obtain ⟨jump, hjump⟩ := follow_eq_walk tree maxLinks
  rw [hjump] at hfollow
  rw [List.append_assoc] at h hl
  exact noLink_of_walk_straight (hl.of_subset fun _ => List.mem_append_left _) hlength h hfollow hentry

/-- Below a grounded location, a path of which no part is a link is straight. -/
lemma straight_of_not_isLink {here rest : Location} (hhere : tree.Grounded here) (hrest : rest.Proper)
    (h : ∀ q, q <+: rest → ¬ tree.IsLink (here ++ q)) : tree.Straight here rest := by
  induction rest generalizing here with
  | nil => trivial
  | cons name rest ih =>
    obtain ⟨moves, down, hslash⟩ := isName_iff.1 (hrest name List.mem_cons_self)
    rw [Straight]
    split
    · trivial
    · rename_i hshort
      split
      · rename_i hget
        refine ih (hhere.concat ⟨moves, down, hshort⟩ hslash hget)
          (hrest.of_subset fun _ => List.mem_cons_of_mem _) fun q hq => ?_
        rw [List.append_assoc]
        exact h ([name] ++ q) (by simpa using hq)
      · rename_i target hget
        refine h [name] (by simp) (isLink_concat_iff.2 ⟨target, ?_⟩)
        rw [beneath?_of_grounded hhere hshort, hget]
      · trivial
      · trivial

/-- The path to a location meets no link if and only if no part of the location is one. -/
lemma straight_iff {l : Location} (hl : l.Proper) : tree.Straight [] l ↔ ∀ q, q <+: l → ¬ tree.IsLink q :=
  ⟨fun h _ => not_isLink_of_straight hl h, fun h => straight_of_not_isLink Grounded.nil hl h⟩

/-- Nothing stands at the name behind the longest part that is found, if it can be asked for. -/
lemma LongestExisting.beneath?_eq_none {p rest : Location} {name : Text}
    (h : tree.LongestExisting (p ++ name :: rest) p) (hfits : Fits (p ++ [name])) : tree.beneath? p name = none := by
  cases hbeneath : tree.beneath? p name with
  | none => rfl
  | some e =>
    have hfound : tree.standing? p name = some e := standing?_eq_some.2 ⟨hfits, hbeneath⟩
    have hlonger := h.longest (p ++ [name]) (by simp) (by rw [status?_concat, hfound]; rfl)
    rw [List.length_append, List.length_singleton] at hlonger
    omega

/-- The rest of a location begins, behind a directory, with a name under which nothing stands, if it can be asked
for. -/
lemma straight_rest {p real rest : Location} {name : Text} (hp : tree.LongestExisting (p ++ name :: rest) p)
    (hfits : Fits (p ++ [name])) (hreal : tree.follow maxLinks [] p = .ok (real, some .directory)) :
    tree.Straight real (name :: rest) := by
  have hnone := hp.beneath?_eq_none hfits
  rw [beneath?, hreal] at hnone
  rw [Straight]
  split
  · trivial
  · rename_i hlength
    simp only [if_neg hlength] at hnone
    rw [hnone]
    trivial

/-- Whether a link is overlooked in a location: it stands behind the longest part that is found, and the path to the
name that comes next is too long to be asked for. -/
def Overlooked (tree : Tree) (l : Location) : Prop :=
  ∃ p name rest real, l = p ++ name :: rest ∧ tree.LongestExisting l p ∧ tree.real? p = some real ∧
    ¬ Fits (p ++ [name]) ∧ ∃ q, q <+: name :: rest ∧ tree.IsLink (real ++ q)

/-- In a location whose path is short enough no link is overlooked. -/
lemma not_overlooked_of_fits {l : Location} (h : Fits l) : ¬ tree.Overlooked l := by
  rintro ⟨p, name, rest, real, rfl, -, -, hlong, -⟩
  exact hlong (h.of_prefix (by simp))

lemma proper_of_settle? {l place : Location} (hl : l.Proper) (h : tree.settle? l = some place) : place.Proper := by
  obtain ⟨p, rest, rfl, -, hsettle⟩ := tree.settle?_eq l
  rw [hsettle] at h
  obtain ⟨real, hreal, rfl⟩ := Option.map_eq_some_iff.1 h
  obtain ⟨e, -, hreached⟩ := reached_of_real? (hl.of_subset fun _ => List.mem_append_left _) hreal
  exact hreached.proper.append (hl.of_subset fun _ => List.mem_append_right _)

/-- What is settled has a link on the way if and only if one is overlooked. -/
theorem exists_isLink_iff_overlooked {l place : Location} (hl : l.Proper) (h : tree.settle? l = some place) :
    (∃ q, q <+: place ∧ tree.IsLink q) ↔ tree.Overlooked l := by
  have hplace := proper_of_settle? hl h
  obtain ⟨p, rest, rfl, hp, hsettle⟩ := tree.settle?_eq l
  rw [hsettle] at h
  obtain ⟨real, hreal, rfl⟩ := Option.map_eq_some_iff.1 h
  obtain ⟨e, hfollow, hreached⟩ := reached_of_real? (hl.of_subset fun _ => List.mem_append_left _) hreal
  constructor
  · rintro ⟨q, hq, hlink⟩
    -- the part with its links followed meets none, so the link stands in the rest
    have hbehind : ¬ q <+: real := fun hin => (straight_iff hreached.proper).1 hreached.straight q hin hlink
    obtain hin | ⟨q, rfl⟩ := List.prefix_or_prefix_of_prefix hq (List.prefix_append real rest)
    · exact absurd hin hbehind
    replace hq := (List.prefix_append_right_inj real).1 hq
    cases rest with
    | nil =>
      obtain rfl := List.prefix_nil.1 hq
      simp at hbehind
    | cons name rest =>
      refine ⟨p, name, rest, real, rfl, hp, hreal, fun hfits => ?_, q, hq, hlink⟩
      have hstraight : tree.Straight [] (real ++ name :: rest) :=
        hreached.straight_append fun he => straight_rest hp hfits (by rw [hfollow, he])
      exact (straight_iff hplace).1 hstraight _ ((List.prefix_append_right_inj real).2 hq) hlink
  · rintro ⟨p', name, rest', real', heq, hp', hreal', -, q, hq, hlink⟩
    obtain rfl := hp.unique hp'
    obtain rfl := List.append_cancel_left heq
    obtain rfl := Option.some.inj (hreal.symm.trans hreal')
    exact ⟨real ++ q, (List.prefix_append_right_inj real).2 hq, hlink⟩

/-- If no link is overlooked in a location, what is settled for it is straight. -/
lemma straight_of_settle? {l place : Location} (hl : l.Proper) (h : tree.settle? l = some place)
    (hseen : ¬ tree.Overlooked l) : tree.Straight [] place := by
  refine (straight_iff (proper_of_settle? hl h)).2 fun q hq hlink => ?_
  exact hseen ((exists_isLink_iff_overlooked hl h).1 ⟨q, hq, hlink⟩)

/-- What is located is reached by following the path. -/
lemma follow_of_locate {path : Text} {e : Option Entry} (h : tree.locate path = .ok (place, e)) :
    tree.follow maxLinks (start tree.current path) (steps path) = .ok (place, e) := by
  unfold locate at h
  split at h
  · simp at h
  split at h
  · simp at h
  split at h
  · simp at h
  exact h

/-- The path to a location, if it leads anywhere, leads there if and only if no link is on the way. -/
theorem eq_iff_of_locate_text {l here : Location} {e : Option Entry} (hl : l.Proper)
    (h : tree.locate l.text = .ok (here, e)) : here = l ↔ ∀ q, q <+: l → ¬ tree.IsLink q := by
  have hfollow := follow_of_locate h
  rw [start, if_pos (Location.isAbsolute_text l)] at hfollow
  constructor
  · rintro rfl
    have hreached := reached_of_follow Grounded.nil (fun _ => slash_not_mem_of_mem_steps) hfollow
    exact (straight_iff hl).1 hreached.straight
  · intro hlinks
    obtain ⟨jump, hjump⟩ := follow_eq_walk tree maxLinks
    by_cases hne : l = []
    · subst hne
      rw [hjump, show steps (Location.text []) = [[], []] from rfl] at hfollow
      obtain ⟨rfl, -⟩ := Prod.mk.inj (Except.ok.inj hfollow)
      rfl
    · rw [Location.steps_text hl hne, hjump, walk_stays rfl] at hfollow
      exact walk_straight hl ((straight_iff hl).2 hlinks) hfollow

/-! ## What is not settled -/

/-- Following a location, with as many links as it takes, ends at nothing. -/
def Dangling (tree : Tree) (l : Location) : Prop :=
  ∃ links, tree.follow links [] l ≠ .error .tooManyLinks ∧ ∀ place e, tree.follow links [] l ≠ .ok (place, some e)

/-- Following a location meets links without end. -/
def Cyclic (tree : Tree) (l : Location) : Prop := ∀ links, tree.follow links [] l = .error .tooManyLinks

/-- Following a location ends, but meets more links than are followed. -/
def Overlong (tree : Tree) (l : Location) : Prop :=
  tree.follow maxLinks [] l = .error .tooManyLinks ∧ ∃ links, tree.follow links [] l ≠ .error .tooManyLinks

/-- Whether a location is a link that cannot be followed to something: it leads to nothing, never ends, or takes too
many links. -/
def Lost (tree : Tree) (l : Location) : Prop :=
  tree.IsLink l ∧ (tree.Dangling l ∨ tree.Cyclic l ∨ tree.Overlong l)

/-- Whether following a location leads over a place whose path is too long to ask for it. -/
def Remote (tree : Tree) (l : Location) : Prop := tree.followFits maxLinks [] l = false

/-- The longest part of a location that is found has a given fault. -/
def Blocked (tree : Tree) (fault : Location → Prop) (l : Location) : Prop := ∃ p, tree.LongestExisting l p ∧ fault p

/-- A location that leads to nothing dangles, runs in circles or takes too many links. -/
lemma dangling_or_cyclic_or_overlong {l : Location} (h : ∀ place e, tree.follow maxLinks [] l ≠ .ok (place, some e)) :
    tree.Dangling l ∨ tree.Cyclic l ∨ tree.Overlong l := by
  by_cases htoo : tree.follow maxLinks [] l = .error .tooManyLinks
  · by_cases hcyclic : tree.Cyclic l
    · exact .inr (.inl hcyclic)
    · exact .inr (.inr ⟨htoo, not_forall.1 hcyclic⟩)
  · exact .inl ⟨maxLinks, htoo, h⟩

/-- What stands somewhere and cannot be followed is a link. -/
lemma isLink_of_status? {l : Location} (hl : l.Proper) (hexists : (tree.status? l).isSome)
    (h : ∀ place e, tree.follow maxLinks [] l ≠ .ok (place, some e)) : tree.IsLink l := by
  obtain rfl | ⟨parent, name, rfl⟩ := List.eq_nil_or_concat' l
  · exact absurd rfl (h [] .directory)
  · obtain ⟨e, hstatus⟩ := Option.isSome_iff_exists.1 hexists
    rw [status?_concat] at hstatus
    obtain ⟨-, hbeneath⟩ := standing?_eq_some.1 hstatus
    obtain ⟨place, hfollow, hlength, hentry⟩ := beneath?_eq_some hbeneath
    obtain ⟨left, hleft⟩ := follow_append hfollow
    obtain ⟨hstays, hup, -⟩ := isName_iff.1 (hl name (by simp))
    obtain ⟨jump, hjump⟩ := follow_eq_walk tree left
    have enters : Enters name := ⟨hstays, hup, hlength⟩
    -- the last step is taken from the directory that the others lead to
    have hlast : tree.follow maxLinks [] (parent ++ [name]) = tree.walk jump place [name] := by rw [hleft, hjump]
    cases e with
    | link target => exact isLink_concat_iff.2 ⟨target, hbeneath⟩
    | directory =>
      rw [walk_directory enters hentry] at hlast
      exact absurd hlast (h _ .directory)
    | file content =>
      rw [walk_other enters hentry (by simp) (by simp)] at hlast
      exact absurd hlast (h _ (.file content))

/-- Where links cannot be followed from an entry that exists, it is lost, or the place behind it does not fit
into a path. -/
lemma lost_or_remote_of_real?_eq_none {l : Location} (hl : l.Proper) (hexists : (tree.status? l).isSome)
    (h : tree.real? l = none) : tree.Lost l ∨ tree.Remote l := by
  by_cases hremote : tree.Remote l
  · exact .inr hremote
  · have hfits : tree.followFits maxLinks [] l = true := by simpa [Remote] using hremote
    have hnowhere : ∀ place e, tree.follow maxLinks [] l ≠ .ok (place, some e) := by
      intro place e hfollow
      rw [real?_eq_some.2 ⟨fits_of_status? hexists, hfits, e, hfollow⟩] at h
      simp at h
    exact .inl ⟨isLink_of_status? hl hexists hnowhere, dangling_or_cyclic_or_overlong hnowhere⟩

/-- A location that does not settle is blocked by an entry whose links cannot be followed. -/
theorem blocked_of_settle?_eq_none {l : Location} (hl : l.Proper) (h : tree.settle? l = none) :
    tree.Blocked (fun p => tree.Lost p ∨ tree.Remote p) l := by
  obtain ⟨p, rest, heq, hp, hsettle⟩ := tree.settle?_eq l
  have hnone : tree.real? p = none := by simpa [hsettle] using h
  have hproper : Location.Proper p := hl.of_subset fun _ hname => hp.is_part.subset hname
  exact ⟨p, hp, lost_or_remote_of_real?_eq_none hproper hp.exists_status hnone⟩

end Tree

end Stencil.Files
