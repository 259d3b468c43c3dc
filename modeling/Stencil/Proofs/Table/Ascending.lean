import Mathlib.Algebra.GroupWithZero.Nat
import Mathlib.Data.List.Induction
import Mathlib.Data.List.Nodup
import Stencil.Proofs.Cache.Entries
import Stencil.Table

/-!
# Tables in ascending order

A table of entries in any order (`Table.ofEntries`) is in ascending order, holds nothing but these entries, and gives
for each key the entry that comes last (`get?_ofEntries`); if no two have one key it holds all of them
(`ofEntries_perm`), and it is the same whatever their order is (`ofEntries_eq_of_perm`). Entries in ascending order are
a table as they are (`ofEntries_of_ascending`).
-/

namespace Stencil.Table

variable {α : Type} {t entries : Table Text α} {k : Text} {v : α}

lemma ofEntries_concat (entries : Table Text α) (k : Text) (v : α) :
    ofEntries (entries ++ [(k, v)]) = (ofEntries entries).insert k v := by
  rw [ofEntries, List.foldl_append]
  rfl

lemma ascending_ofEntries (entries : Table Text α) : Ascending (ofEntries entries) := by
  induction entries using List.reverseRecOn with
  | nil => exact List.Pairwise.nil
  | append_singleton entries entry ih =>
    rw [ofEntries_concat]
    exact ascending_insert ih entry.1 entry.2

/-- A table has only entries that it was made of. -/
lemma mem_of_mem_ofEntries {entry : Text × α} (h : entry ∈ ofEntries entries) : entry ∈ entries := by
  induction entries using List.reverseRecOn with
  | nil => exact h
  | append_singleton entries last ih =>
    rw [ofEntries_concat] at h
    rcases mem_insert h with rfl | h
    · exact List.mem_append_right _ (List.mem_singleton_self _)
    · exact List.mem_append_left _ (ih h)

/-- An entry under a new name is one more entry. -/
lemma insert_perm (h : ∀ entry ∈ t, entry.1 ≠ k) (v : α) : (t.insert k v).Perm ((k, v) :: t) := by
  induction t with
  | nil => exact List.Perm.refl _
  | cons first rest ih =>
    obtain ⟨key, value⟩ := first
    obtain ⟨hfirst, hrest⟩ := List.forall_mem_cons.1 h
    by_cases hbefore : k < key
    · rw [insert, if_pos hbefore]
    · rw [insert, if_neg hbefore, if_neg hfirst]
      exact ((ih hrest).cons _).trans (List.Perm.swap _ _ _)

/-- Entries with keys of their own are all kept. -/
theorem ofEntries_perm (h : (entries.map (·.1)).Nodup) : (ofEntries entries).Perm entries := by
  induction entries using List.reverseRecOn with
  | nil => exact List.Perm.refl _
  | append_singleton entries entry ih =>
    rw [List.map_append, List.nodup_append] at h
    obtain ⟨hnodup, -, hapart⟩ := h
    -- the last key is not among those before it
    have hnew : ∀ other ∈ ofEntries entries, other.1 ≠ entry.1 := fun other hother =>
      hapart _ (List.mem_map_of_mem (mem_of_mem_ofEntries hother)) _ (List.mem_singleton_self _)
    rw [ofEntries_concat]
    exact ((insert_perm hnew entry.2).trans ((ih hnodup).cons _)).trans (List.perm_append_singleton _ _).symm

/-- Of entries with one key, the last one counts. -/
theorem get?_ofEntries (entries : Table Text α) (k : Text) : get? (ofEntries entries) k = get? entries.reverse k := by
  induction entries using List.reverseRecOn with
  | nil => rfl
  | append_singleton entries entry ih =>
    rw [ofEntries_concat, get?_insert, List.reverse_concat, ih]
    rfl

/-- What is inserted behind all keys goes to the end. -/
lemma insert_of_forall_lt (h : ∀ entry ∈ t, entry.1 < k) (v : α) : t.insert k v = t ++ [(k, v)] := by
  induction t with
  | nil => rfl
  | cons first rest ih =>
    obtain ⟨key, value⟩ := first
    obtain ⟨hfirst, hrest⟩ := List.forall_mem_cons.1 h
    have hkey : key < k := hfirst
    rw [insert, if_neg (List.lt_asymm hkey), if_neg (by rintro rfl; exact List.lt_irrefl key hkey), ih hrest]
    rfl

/-- Entries in order are their own table. -/
theorem ofEntries_of_ascending (h : Ascending t) : ofEntries t = t := by
  induction t using List.reverseRecOn with
  | nil => rfl
  | append_singleton t entry ih =>
    obtain ⟨ht, -, hlast⟩ := List.pairwise_append.1 h
    -- what comes last has the greatest key
    have hbehind : ∀ other ∈ t, other.1 < entry.1 := fun other hother =>
      hlast other hother entry (List.mem_singleton_self entry)
    rw [ofEntries_concat, ih ht, insert_of_forall_lt hbehind]

lemma Ascending.nodup (h : Ascending t) : (t.map (·.1)).Nodup := by
  rw [List.nodup_iff_pairwise_ne, List.pairwise_map]
  refine h.imp fun {a b} hlt heq => ?_
  rw [heq] at hlt
  exact List.lt_irrefl _ hlt

/-- In ascending order, a key has no value but that of its entry. -/
lemma get?_eq_some_iff_mem (h : Ascending t) : get? t k = some v ↔ (k, v) ∈ t := get?_eq_some_iff_of_nodup h.nodup

/-- Entries with keys of their own are in one order only, if the order of their keys is given. -/
lemma eq_of_perm (hkeys : t.map (·.1) = entries.map (·.1)) (hnodup : (entries.map (·.1)).Nodup)
    (hperm : t.Perm entries) : t = entries := by
  induction t generalizing entries with
  | nil => exact (List.map_eq_nil_iff.1 hkeys.symm).symm
  | cons entry t ih =>
    cases entries with
    | nil => exact absurd hkeys (List.cons_ne_nil _ _)
    | cons other entries =>
      rw [List.map_cons, List.map_cons, List.cons.injEq] at hkeys
      -- the first entry is among the others, and no other one has its key
      have hfirst : entry = other :=
        List.inj_on_of_nodup_map hnodup (hperm.mem_iff.1 List.mem_cons_self) List.mem_cons_self hkeys.1
      subst hfirst
      rw [ih hkeys.2 (List.nodup_cons.1 hnodup).2 (List.perm_cons entry |>.1 hperm)]

/-- The order in which entries with keys of their own are written down does not matter. -/
theorem ofEntries_eq_of_perm (hnodup : (entries.map (·.1)).Nodup) (hperm : entries.Perm t) :
    ofEntries entries = ofEntries t := by
  have hnodup' : (t.map (·.1)).Nodup := (hperm.map _).nodup_iff.1 hnodup
  have hsame : (ofEntries entries).Perm (ofEntries t) :=
    ((ofEntries_perm hnodup).trans hperm).trans (ofEntries_perm hnodup').symm
  refine hsame.eq_of_pairwise ?_ (ascending_ofEntries entries) (ascending_ofEntries t)
  exact fun _ _ _ _ hlt hgt => absurd hgt (List.lt_asymm hlt)

/-! ## The size of a table -/

variable (size : Text × α → Nat)

/-- An insertion adds at most the size of the new entry. -/
lemma sum_insert_le (t : Table Text α) (k : Text) (v : α) :
    ((t.insert k v).map size).sum ≤ (t.map size).sum + size (k, v) := by
  induction t with
  | nil => simp [insert]
  | cons first rest ih =>
    obtain ⟨key, value⟩ := first
    rw [insert]
    split
    · simp only [List.map_cons, List.sum_cons]
      omega
    · split
      · simp only [List.map_cons, List.sum_cons]
        omega
      · simp only [List.map_cons, List.sum_cons]
        omega

/-- A table is no greater than the entries that it is made of. -/
lemma sum_ofEntries_le (entries : Table Text α) : ((ofEntries entries).map size).sum ≤ (entries.map size).sum := by
  induction entries using List.reverseRecOn with
  | nil => exact Nat.le_refl _
  | append_singleton entries entry ih =>
    have hinsert := sum_insert_le size (ofEntries entries) entry.1 entry.2
    rw [ofEntries_concat, List.map_append, List.sum_append, List.map_singleton, List.sum_singleton]
    exact Nat.le_trans hinsert (Nat.add_le_add_right ih _)

end Stencil.Table
