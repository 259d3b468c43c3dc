import Stencil.Inspection.Validator
import Stencil.Proofs.Basic
import Stencil.Proofs.Json.Parts
import Stencil.Proofs.Table.Ascending

/-!
# Cleaning twice

What cleaning makes of a value it leaves as it is when it comes across it again (`Validator.clean_clean`), and it makes
no value longer in writing (`Validator.byteLength_clean_le`). So every value that has been accepted for a name is
accepted again as it is (`Validator.validateValue_validateValue`).

Of an object this takes some care: keys may fall together when control characters are removed from them, so there may
be fewer members than before.
-/

namespace Stencil.Inspection.Validator

open Json

variable {v : Validator} {name : Text}

/-! ## Texts -/

lemma stripControls_stripControls (t : Text) : stripControls (stripControls t) = stripControls t := by
  simp [stripControls]

/-- A text is cleaned if it is accepted without its control characters. -/
lemma cleanText_eq_ok_iff {t cleaned : Text} :
    v.cleanText t = .ok cleaned ↔ v.checkText (stripControls t) = .ok () ∧ stripControls t = cleaned := by
  rw [cleanText, bind_eq_ok_iff]
  constructor
  · intro h
    obtain ⟨_, hcheck, hcleaned⟩ := h
    exact ⟨hcheck, Except.ok.inj hcleaned⟩
  · intro h
    exact ⟨(), h.1, congrArg _ h.2⟩

lemma cleanText_cleanText {t cleaned : Text} (h : v.cleanText t = .ok cleaned) :
    v.cleanText cleaned = .ok cleaned := by
  obtain ⟨hcheck, rfl⟩ := cleanText_eq_ok_iff.1 h
  rw [cleanText_eq_ok_iff, stripControls_stripControls]
  exact ⟨hcheck, rfl⟩

/-! ## Parts -/

/-- What cleaning makes of an item, with one level less to go down. -/
def CleansItem (v : Validator) (name : Text) (room : Nat) (item cleaned : Value) : Prop :=
  0 < room ∧ v.clean name (room - 1) item = .ok cleaned

/-- What cleaning makes of a member, with one level less to go down. -/
def CleansMember (v : Validator) (name : Text) (room : Nat) (member cleaned : Text × Value) : Prop :=
  v.cleanText member.1 = .ok cleaned.1 ∧ v.CleansItem name room member.2 cleaned.2

/-- Items are cleaned if each of them is. -/
lemma cleanItems_eq_ok_iff {room : Nat} {items cleaned : List Value} :
    clean.cleanItems v name room items = .ok cleaned ↔ List.Forall₂ (v.CleansItem name room) items cleaned := by
  induction items generalizing cleaned with
  | nil =>
    rw [clean.cleanItems, List.forall₂_nil_left_iff]
    exact ⟨fun h => (Except.ok.inj h).symm, fun h => congrArg _ h.symm⟩
  | cons item rest ih =>
    rw [List.forall₂_cons_left_iff]
    cases room with
    | zero => simp [clean.cleanItems, CleansItem]
    | succ room =>
      rw [clean.cleanItems]
      constructor
      · intro h
        obtain ⟨first, hfirst, hrest⟩ := bind_eq_ok_iff.1 h
        obtain ⟨later, hlater, hcleaned⟩ := bind_eq_ok_iff.1 hrest
        exact ⟨first, later, ⟨Nat.succ_pos room, hfirst⟩, ih.1 hlater, (Except.ok.inj hcleaned).symm⟩
      · intro h
        obtain ⟨first, later, ⟨-, hfirst⟩, hlater, rfl⟩ := h
        exact bind_eq_ok_iff.2 ⟨first, hfirst, bind_eq_ok_iff.2 ⟨later, ih.2 hlater, rfl⟩⟩

/-- Members are cleaned if each of them is, and a later one replaces an earlier one of the same name. -/
lemma cleanMembers_eq_ok_iff {room : Nat} {members done cleaned : List (Text × Value)} :
    clean.cleanMembers v name room members done = .ok cleaned ↔
      ∃ entries, List.Forall₂ (v.CleansMember name room) members entries ∧
        entries.foldl (fun table (key, value) => Table.insert table key value) done = cleaned := by
  -- by induction on the members, with what was cleaned before as the table
  induction members generalizing done with
  | nil =>
    rw [clean.cleanMembers]
    simp
  | cons member rest ih =>
    obtain ⟨key, value⟩ := member
    rw [clean.cleanMembers]
    cases room with
    | zero =>
      have hnone : ∀ entry, ¬ v.CleansMember name 0 (key, value) entry := fun entry h => Nat.lt_irrefl 0 h.2.1
      cases v.cleanText key <;> simp [bind, Except.bind, List.forall₂_cons_left_iff, hnone]
    | succ room =>
      constructor
      · intro h
        obtain ⟨cleanKey, hkey, hmember⟩ := bind_eq_ok_iff.1 h
        obtain ⟨cleanValue, hvalue, hrest⟩ := bind_eq_ok_iff.1 hmember
        obtain ⟨entries, hentries, hcleaned⟩ := ih.1 hrest
        exact ⟨(cleanKey, cleanValue) :: entries, .cons ⟨hkey, Nat.succ_pos room, hvalue⟩ hentries, hcleaned⟩
      · intro h
        obtain ⟨entries, hentries, hcleaned⟩ := h
        obtain ⟨entry, later, ⟨hkey, -, hvalue⟩, hlater, rfl⟩ := List.forall₂_cons_left_iff.1 hentries
        have hrest := ih.2 ⟨later, hlater, hcleaned⟩
        exact bind_eq_ok_iff.2 ⟨entry.1, hkey, bind_eq_ok_iff.2 ⟨entry.2, hvalue, hrest⟩⟩

/-- An array is cleaned if its items are, one level deeper. -/
lemma clean_array_eq_ok_iff {room : Nat} {items : List Value} {cleaned : Value} :
    v.clean name room (.array items) = .ok cleaned ↔
      ∃ parts, List.Forall₂ (v.CleansItem name room) items parts ∧ .array parts = cleaned := by
  rw [clean, map_eq_ok_iff]
  simp only [cleanItems_eq_ok_iff]

/-- The members of an object are cleaned and put into a table, in which a later one takes the place of an earlier one
with the same key. -/
lemma clean_object_eq_ok_iff {room : Nat} {members : List (Text × Value)} {cleaned : Value} :
    v.clean name room (.object members) = .ok cleaned ↔
      ∃ entries, List.Forall₂ (v.CleansMember name room) members entries ∧
        .object (Table.ofEntries entries) = cleaned := by
  rw [clean, map_eq_ok_iff]
  simp only [cleanMembers_eq_ok_iff]
  constructor
  · rintro ⟨_, ⟨entries, hentries, rfl⟩, hcleaned⟩
    exact ⟨entries, hentries, hcleaned⟩
  · rintro ⟨entries, hentries, hcleaned⟩
    exact ⟨_, ⟨entries, hentries, rfl⟩, hcleaned⟩

/-! ## Values -/

/-- What has been cleaned is clean. -/
theorem clean_clean {room : Nat} {value cleaned : Value} (h : v.clean name room value = .ok cleaned) :
    v.clean name room cleaned = .ok cleaned := by
  induction value using Value.rec_parts generalizing room cleaned with
  | null | bool | number =>
    rw [clean] at h
    rw [← Except.ok.inj h, clean]
  | string t =>
    rw [clean, map_eq_ok_iff] at h
    obtain ⟨text, htext, rfl⟩ := h
    rw [clean, map_eq_ok_iff]
    exact ⟨text, cleanText_cleanText htext, rfl⟩
  | array items ih =>
    obtain ⟨parts, hparts, rfl⟩ := clean_array_eq_ok_iff.1 h
    refine clean_array_eq_ok_iff.2 ⟨parts, List.forall₂_same.2 fun part hpart => ?_, rfl⟩
    obtain ⟨item, hitem, hroom, hclean⟩ := exists_mem_of_forall₂ hparts.flip hpart
    exact ⟨hroom, ih item hitem hclean⟩
  | object members ih =>
    -- the table is in order already, so to put its entries into a table once more changes nothing
    obtain ⟨entries, hentries, rfl⟩ := clean_object_eq_ok_iff.1 h
    have hsame := Table.ofEntries_of_ascending (Table.ascending_ofEntries entries)
    refine clean_object_eq_ok_iff.2 ⟨Table.ofEntries entries, List.forall₂_same.2 fun entry hentry => ?_, by rw [hsame]⟩
    obtain ⟨member, hmember, hkey, hroom, hclean⟩ :=
      exists_mem_of_forall₂ hentries.flip (Table.mem_of_mem_ofEntries hentry)
    exact ⟨cleanText_cleanText hkey, hroom, ih member hmember hclean⟩

/-! ## The length of what is written -/

/-- To strip control characters never makes a written string longer. -/
lemma byteLength_stringText_stripControls_le (t : Text) :
    Text.byteLength (stringText (stripControls t)) ≤ Text.byteLength (stringText t) := by
  have hescaped : Text.byteLength ((stripControls t).flatMap escapeChar) ≤ Text.byteLength (t.flatMap escapeChar) := by
    unfold stripControls
    induction t with
    | nil => exact Nat.le_refl _
    | cons c rest ih =>
      rw [List.filter_cons]
      split
      · simp only [List.flatMap_cons, Text.byteLength_append]
        omega
      · simp only [List.flatMap_cons, Text.byteLength_append]
        omega
  simp only [stringText, Text.byteLength_cons, Text.byteLength_append, List.cons_append]
  omega

/-- What is cleaned part by part sums up to no more if no part grows. -/
lemma sum_le_of_forall₂ {α : Type} {R : α → α → Prop} (size : α → Nat) {as bs : List α} (h : List.Forall₂ R as bs)
    (hsize : ∀ a ∈ as, ∀ b, R a b → size b ≤ size a) : (bs.map size).sum ≤ (as.map size).sum := by
  induction h with
  | nil => exact Nat.le_refl _
  | cons hrel _ ih =>
    obtain ⟨hfirst, hrest⟩ := List.forall_mem_cons.1 hsize
    have hle := hfirst _ hrel
    have hsum := ih hrest
    simp only [List.map_cons, List.sum_cons]
    omega

/-- Cleaning makes no value longer in writing. -/
theorem byteLength_clean_le {room : Nat} {value cleaned : Value} (h : v.clean name room value = .ok cleaned) :
    Text.byteLength cleaned.compact ≤ Text.byteLength value.compact := by
  induction value using Value.rec_parts generalizing room cleaned with
  | null | bool | number =>
    rw [clean] at h
    obtain rfl := Except.ok.inj h
    exact Nat.le_refl _
  | string t =>
    rw [clean, map_eq_ok_iff] at h
    obtain ⟨text, htext, rfl⟩ := h
    rw [← (cleanText_eq_ok_iff.1 htext).2]
    exact byteLength_stringText_stripControls_le t
  | array items ih =>
    obtain ⟨parts, hparts, rfl⟩ := clean_array_eq_ok_iff.1 h
    have hsum := sum_le_of_forall₂ (fun item : Value => Text.byteLength item.compact + 1) hparts
      fun item hitem part hpart => Nat.add_le_add_right (ih item hitem hpart.2) 1
    rw [Value.byteLength_compact_array, Value.byteLength_compact_array]
    omega
  | object members ih =>
    obtain ⟨entries, hentries, rfl⟩ := clean_object_eq_ok_iff.1 h
    have hsum := sum_le_of_forall₂ (fun member => Text.byteLength (Value.memberText member) + 1) hentries <| by
      intro member hmember entry hentry
      obtain ⟨hkey, -, hclean⟩ := hentry
      have hvalue := ih member hmember hclean
      have hname := byteLength_stringText_stripControls_le member.1
      rw [(cleanText_eq_ok_iff.1 hkey).2] at hname
      rw [Value.byteLength_memberText, Value.byteLength_memberText]
      omega
    -- members whose keys have become one are written once
    have htable := Table.sum_ofEntries_le (fun member => Text.byteLength (Value.memberText member) + 1) entries
    rw [Value.byteLength_compact_object, Value.byteLength_compact_object]
    omega

/-! ## The values of variables -/

/-- A value is accepted if its name is one of a variable, its text is short enough and it can be cleaned. -/
lemma validateValue_eq_ok_iff {value cleaned : Value} :
    v.validateValue name value = .ok cleaned ↔
      Template.isVariableName name = true ∧ Text.byteLength value.compact ≤ v.settings.maxVariableBytes ∧
        v.clean name maxValueDepth value = .ok cleaned := by
  unfold validateValue
  cases Template.isVariableName name with
  | false => simp
  | true =>
    by_cases hsize : v.settings.maxVariableBytes < Text.byteLength value.compact
    · simp [hsize, Nat.not_le_of_lt hsize]
    · simp [hsize, Nat.le_of_not_lt hsize]

/-- A value that has been accepted for a name is accepted as it is. -/
theorem validateValue_validateValue {value cleaned : Value} (h : v.validateValue name value = .ok cleaned) :
    v.validateValue name cleaned = .ok cleaned := by
  obtain ⟨hname, hsize, hclean⟩ := validateValue_eq_ok_iff.1 h
  exact validateValue_eq_ok_iff.2 ⟨hname, Nat.le_trans (byteLength_clean_le hclean) hsize, clean_clean hclean⟩

end Stencil.Inspection.Validator
