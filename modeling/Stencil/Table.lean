import Stencil.Text.Basic

/-!
# Tables

A table is a list of entries, each a key and its value, with at most one entry for a key. Two ways of writing to one
are given: `set` keeps the entry's place or appends, `insert` keeps entries whose keys are texts in ascending order.

Main statements: what was written under a key is read back and nothing else has changed (`get?_set`, `get?_erase`,
`get?_insert`), and `insert` keeps the order (`ascending_insert`).
-/

namespace Stencil

/-- A list of keys with their values. -/
abbrev Table (κ α : Type) := List (κ × α)

namespace Table

variable {κ α : Type} [DecidableEq κ]

/-! ## Entries in any order -/

/-- The value that a key has. -/
def get? : Table κ α → κ → Option α
  | [], _ => none
  | (key, value) :: rest, k => if key = k then some value else get? rest k

/-- Writes a value under a key, in the place of its old one or at the end. -/
def set : Table κ α → κ → α → Table κ α
  | [], k, v => [(k, v)]
  | (key, value) :: rest, k, v => if key = k then (k, v) :: rest else (key, value) :: set rest k v

/-- Removes every entry of a key. -/
def erase (t : Table κ α) (k : κ) : Table κ α := t.filter fun (key, _) => key ≠ k

@[simp] theorem get?_nil (k : κ) : get? ([] : Table κ α) k = none := rfl

/-- A key has the value written last; other keys keep theirs. -/
theorem get?_set (t : Table κ α) (k k' : κ) (v : α) :
    (t.set k v).get? k' = if k = k' then some v else t.get? k' := by
  induction t with
  | nil => simp [set, get?]
  | cons entry rest ih =>
    obtain ⟨key, value⟩ := entry
    simp only [set]
    split
    · rename_i hkey
      subst hkey
      simp only [get?]
      split <;> rfl
    · rename_i hkey
      simp only [get?, ih]
      split
      · rename_i h
        subst h
        simp [Ne.symm hkey]
      · rfl

theorem mem_set {t : Table κ α} {k : κ} {v : α} {entry : κ × α} (h : entry ∈ t.set k v) :
    entry = (k, v) ∨ entry ∈ t := by
  induction t with
  | nil => simpa [set] using h
  | cons first rest ih =>
    obtain ⟨key, value⟩ := first
    simp only [set] at h
    split at h
    · exact (List.mem_cons.1 h).imp_right (List.mem_cons_of_mem _)
    · rcases List.mem_cons.1 h with h | h
      · exact .inr (h ▸ List.mem_cons_self)
      · exact (ih h).imp_right (List.mem_cons_of_mem _)

theorem mem_of_mem_erase {t : Table κ α} {k : κ} {entry : κ × α} (h : entry ∈ t.erase k) : entry ∈ t :=
  (List.mem_filter.1 h).1

/-- An erased key has no value; other keys keep theirs. -/
theorem get?_erase (t : Table κ α) (k k' : κ) :
    (t.erase k).get? k' = if k = k' then none else t.get? k' := by
  induction t with
  | nil => simp [erase, get?]
  | cons entry rest ih =>
    obtain ⟨key, value⟩ := entry
    simp only [erase] at ih ⊢
    by_cases hkey : key = k
    · subst hkey
      simp only [ne_eq, not_true_eq_false, decide_false, Bool.false_eq_true, not_false_eq_true, List.filter_cons_of_neg,
        ih, get?]
      split <;> rfl
    · simp only [ne_eq, hkey, not_false_eq_true, decide_true, List.filter_cons_of_pos, get?, ih]
      split
      · rename_i h
        subst h
        simp [Ne.symm hkey]
      · rfl

/-! ## Entries in ascending order -/

/-- Writes a value under a text, in front of the first entry with a greater key. -/
def insert : Table Text α → Text → α → Table Text α
  | [], k, v => [(k, v)]
  | (key, value) :: rest, k, v =>
    if k < key then (k, v) :: (key, value) :: rest
    else if key = k then (k, v) :: rest
    else (key, value) :: insert rest k v

/-- The entries one after the other, the last one of a key kept, in ascending order of keys. -/
def ofEntries (entries : List (Text × α)) : Table Text α :=
  entries.foldl (fun table (k, v) => insert table k v) []

/-- Every key is smaller than the keys behind it. -/
def Ascending (t : Table Text α) : Prop := t.Pairwise fun a b => a.1 < b.1

/-- A key has the value inserted last; other keys keep theirs. -/
theorem get?_insert (t : Table Text α) (k k' : Text) (v : α) :
    (t.insert k v).get? k' = if k = k' then some v else t.get? k' := by
  induction t with
  | nil => simp [insert, get?]
  | cons entry rest ih =>
    obtain ⟨key, value⟩ := entry
    simp only [insert]
    split
    · simp only [get?]
    · split
      · rename_i hkey
        subst hkey
        simp only [get?]
        split <;> rfl
      · rename_i hkey
        simp only [get?, ih]
        split
        · rename_i h
          subst h
          simp [Ne.symm hkey]
        · rfl

theorem mem_insert {t : Table Text α} {k : Text} {v : α} {entry : Text × α} (h : entry ∈ t.insert k v) :
    entry = (k, v) ∨ entry ∈ t := by
  induction t with
  | nil => simpa [insert] using h
  | cons first rest ih =>
    obtain ⟨key, value⟩ := first
    simp only [insert] at h
    split at h
    · simpa using h
    · split at h
      · rcases List.mem_cons.1 h with h | h
        · exact .inl h
        · exact .inr (List.mem_cons_of_mem _ h)
      · rcases List.mem_cons.1 h with h | h
        · exact .inr (h ▸ List.mem_cons_self ..)
        · exact (ih h).imp_right (List.mem_cons_of_mem _)

/-- Inserting keeps the keys in ascending order. -/
theorem ascending_insert {t : Table Text α} (h : Ascending t) (k : Text) (v : α) : Ascending (t.insert k v) := by
  -- by induction on the table: the entry is put in front, takes the place of the first, or goes into the rest
  induction t with
  | nil => simp [insert, Ascending]
  | cons first rest ih =>
    obtain ⟨key, value⟩ := first
    obtain ⟨hfirst, hrest⟩ := List.pairwise_cons.1 h
    simp only [insert]
    split
    · rename_i hlt
      refine List.pairwise_cons.2 ⟨fun entry hentry => ?_, h⟩
      rcases List.mem_cons.1 hentry with rfl | hentry
      · exact hlt
      · exact List.lt_trans hlt (hfirst entry hentry)
    · rename_i hge
      split
      · rename_i hkey
        subst hkey
        exact List.pairwise_cons.2 ⟨hfirst, hrest⟩
      · rename_i hne
        refine List.pairwise_cons.2 ⟨fun entry hentry => ?_, ih hrest⟩
        rcases mem_insert hentry with rfl | hentry
        · rcases List.le_iff_lt_or_eq.1 (List.not_lt.1 hge) with hlt | heq
          · exact hlt
          · exact absurd heq hne
        · exact hfirst entry hentry

end Table

end Stencil
