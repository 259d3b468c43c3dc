import Stencil.Proofs.Inspection.Harmless

/-!
# What cleaning leaves of a value

An accepted value comes back without its control characters, those of names included (`clean_eq_stripped`). Apart from
that it keeps its shape: numbers stay as they are, arrays keep their items in order, objects keep their members. Only
names may fall together when they lose their control characters, and then the object keeps the last one of these members
and loses the others without a word.

Main statement: an accepted value keeps its shape if and only if in each of its objects the names stay apart
(`validateValue_shape`).
-/

namespace Stencil.Inspection.Validator

open Json

variable {v : Validator} {name : Text}

/-! ## Values without control characters -/

/-- A value without control characters. Of members with one name the last one is left. -/
def stripped : Value → Value
  | .string t => .string (stripControls t)
  | .array items => .array (strippedItems items)
  | .object members => .object (Table.ofEntries (strippedMembers members))
  | .null => .null
  | .bool b => .bool b
  | .number n => .number n
where
  /-- The items of an array, each without control characters. -/
  strippedItems : List Value → List Value
    | [] => []
    | item :: rest => stripped item :: strippedItems rest
  /-- The members of an object, names and values without control characters. -/
  strippedMembers : List (Text × Value) → List (Text × Value)
    | [] => []
    | (key, value) :: rest => (stripControls key, stripped value) :: strippedMembers rest

/-- A member of an object without control characters. -/
def strippedMember (member : Text × Value) : Text × Value := (stripControls member.1, stripped member.2)

lemma stripped_array (items : List Value) : stripped (.array items) = .array (items.map stripped) := by
  have hitems : stripped.strippedItems items = items.map stripped := by
    induction items with
    | nil => rfl
    | cons item rest ih => rw [stripped.strippedItems, ih, List.map_cons]
  rw [stripped, hitems]

/-- An object is stripped member by member, and later members replace earlier ones of the same name. -/
lemma stripped_object (members : List (Text × Value)) :
    stripped (.object members) = .object (Table.ofEntries (members.map strippedMember)) := by
  have hmembers : stripped.strippedMembers members = members.map strippedMember := by
    induction members with
    | nil => rfl
    | cons member rest ih => rw [stripped.strippedMembers, ih, List.map_cons, strippedMember]
  rw [stripped, hmembers]

/-- What cleaning makes of a value is the value without control characters. -/
theorem clean_eq_stripped {room : Nat} {value cleaned : Value} (h : v.clean name room value = .ok cleaned) :
    cleaned = stripped value := by
  induction value using Value.rec_parts generalizing room cleaned with
  | null | bool | number =>
    rw [clean] at h
    rw [stripped, Except.ok.inj h]
  | string t =>
    rw [clean, map_eq_ok_iff] at h
    obtain ⟨text, htext, rfl⟩ := h
    rw [stripped, (cleanText_eq_ok_iff.1 htext).2]
  | array items ih =>
    obtain ⟨parts, hparts, rfl⟩ := clean_array_eq_ok_iff.1 h
    have hsame : parts = items.map stripped := eq_map_of_forall₂ hparts fun item hitem part hpart =>
      ih item hitem hpart.2
    rw [stripped_array, hsame]
  | object members ih =>
    obtain ⟨entries, hentries, rfl⟩ := clean_object_eq_ok_iff.1 h
    have hsame : entries = members.map strippedMember := by
      refine eq_map_of_forall₂ hentries fun member hmember entry hentry => ?_
      obtain ⟨hkey, -, hvalue⟩ := hentry
      exact Prod.ext (cleanText_eq_ok_iff.1 hkey).2.symm (ih member hmember hvalue)
    rw [stripped_object, hsame]

/-! ## Shape -/

/-- A value that has kept its shape: texts have lost their control characters and nothing else has changed. The members
of an object may stand in another order, since that is the order of their names. -/
inductive SameShape : Value → Value → Prop
  | null : SameShape .null .null
  | bool (b : Bool) : SameShape (.bool b) (.bool b)
  | number (n : Number) : SameShape (.number n) (.number n)
  | string (t : Text) : SameShape (.string t) (.string (stripControls t))
  | array {items parts : List Value} (hitems : List.Forall₂ SameShape items parts) :
    SameShape (.array items) (.array parts)
  | object {members entries cleaned : List (Text × Value)}
    (hnames : members.map (fun member => stripControls member.1) = entries.map (·.1))
    (hvalues : List.Forall₂ SameShape (members.map (·.2)) (entries.map (·.2))) (horder : cleaned.Perm entries) :
    SameShape (.object members) (.object cleaned)

/-- In each object of a value the names stay apart without their control characters. -/
def NamesApart (value : Value) : Prop :=
  ∀ level members, value.PartAt level (.object members) → (members.map fun member => stripControls member.1).Nodup

/-- The names in an array are apart if those in each item are. -/
lemma namesApart_array_iff {items : List Value} : NamesApart (.array items) ↔ ∀ item ∈ items, NamesApart item := by
  constructor
  · intro h item hitem level members hpart
    exact h (level + 1) members (.item hitem hpart)
  · intro h level members hpart
    cases hpart with
    | item hitem hpart => exact h _ hitem _ _ hpart

/-- The names in an object are apart if its own are when they are stripped, and those in each member are. -/
lemma namesApart_object_iff {members : List (Text × Value)} :
    NamesApart (.object members) ↔
      (members.map fun member => stripControls member.1).Nodup ∧ ∀ member ∈ members, NamesApart member.2 := by
  constructor
  · intro h
    exact ⟨h 0 members (.self _), fun member hmember level below hpart => h (level + 1) below (.member hmember hpart)⟩
  · rintro ⟨hnodup, hmembers⟩ level below hpart
    cases hpart with
    | self => exact hnodup
    | member hmember hpart => exact hmembers _ hmember _ _ hpart

/-- What is neither an object nor an array has no names. -/
lemma namesApart_of_forall_ne {value : Value} (h : ∀ members, value ≠ .object members)
    (h' : ∀ items, value ≠ .array items) : NamesApart value := by
  intro level members hpart
  cases hpart with
  | self => exact absurd rfl (h members)
  | item => exact absurd rfl (h' _)
  | member => exact absurd rfl (h _)

/-- The members that are left of an object are all that it had if their names stay apart, and only then. -/
lemma sameShape_object_iff {members : List (Text × Value)} :
    SameShape (.object members) (.object (Table.ofEntries (members.map strippedMember))) ↔
      (members.map fun member => stripControls member.1).Nodup ∧
        ∀ member ∈ members, SameShape member.2 (stripped member.2) := by
  have hnames : (members.map strippedMember).map (·.1) = members.map fun member => stripControls member.1 := by
    rw [List.map_map]
    rfl
  have hvalues : List.Forall₂ SameShape (members.map (·.2)) ((members.map strippedMember).map (·.2)) ↔
      ∀ member ∈ members, SameShape member.2 (stripped member.2) := by
    rw [List.map_map, List.forall₂_map_left_iff, List.forall₂_map_right_iff, List.forall₂_same]
    rfl
  constructor
  · intro h
    cases h with
    | @object _ entries _ hkeys hparts horder =>
      -- a table has no name twice, so the stripped names were apart
      have hnodup : (entries.map (·.1)).Nodup :=
        (horder.map _).nodup_iff.1 (Table.ascending_ofEntries _).nodup
      rw [← hkeys, ← hnames] at hnodup
      have hsame : entries = members.map strippedMember :=
        Table.eq_of_perm (by rw [← hkeys, hnames]) hnodup (horder.symm.trans (Table.ofEntries_perm hnodup))
      rw [hsame] at hparts
      rw [hnames] at hnodup
      exact ⟨hnodup, hvalues.1 hparts⟩
  · rintro ⟨hnodup, hparts⟩
    exact .object hnames.symm (hvalues.2 hparts) (Table.ofEntries_perm (by rwa [hnames]))

/-- A value keeps its shape without control characters exactly if its names stay apart. -/
lemma sameShape_stripped_iff {value : Value} : SameShape value (stripped value) ↔ NamesApart value := by
  induction value using Value.rec_parts with
  | null => exact iff_of_true .null (namesApart_of_forall_ne nofun nofun)
  | bool b => exact iff_of_true (.bool b) (namesApart_of_forall_ne nofun nofun)
  | number n => exact iff_of_true (.number n) (namesApart_of_forall_ne nofun nofun)
  | string t => exact iff_of_true (.string t) (namesApart_of_forall_ne nofun nofun)
  | array items ih =>
    rw [stripped_array, namesApart_array_iff, ← forall₂_congr ih]
    constructor
    · intro h
      cases h with
      | array hitems => exact List.forall₂_same.1 (List.forall₂_map_right_iff.1 hitems)
    · intro h
      exact .array (List.forall₂_map_right_iff.2 (List.forall₂_same.2 h))
  | object members ih =>
    rw [stripped_object, namesApart_object_iff, sameShape_object_iff]
    exact and_congr_right fun _ => forall₂_congr ih

/-- An accepted value comes back without its control characters, and it has kept its shape exactly if in each of its
objects the names stay apart without theirs. Where names fall together members are lost. -/
theorem validateValue_shape {value cleaned : Value} (h : v.validateValue name value = .ok cleaned) :
    cleaned = stripped value ∧ (SameShape value cleaned ↔ NamesApart value) := by
  obtain ⟨-, -, hclean⟩ := validateValue_eq_ok_iff.1 h
  obtain rfl := clean_eq_stripped hclean
  exact ⟨rfl, sameShape_stripped_iff⟩

/-- A value that loses control characters in two names and in a text, and nothing else. -/
theorem validateValue_shape_apart :
    ∃ v : Validator, ∃ cleaned,
      v.validateValue "order" (.object [("a\x07", .array [.string "x\x00"]), ("b", .object [("a\x07", .null)])]) =
        .ok cleaned ∧
      SameShape (.object [("a\x07", .array [.string "x\x00"]), ("b", .object [("a\x07", .null)])]) cleaned := by
  obtain ⟨cleaned, h⟩ := exists_eq_ok_of_isOk (x := Validator.validateValue
    ⟨⟨0, 80, .warning, true⟩, PersonalData.Detector.none⟩ "order"
      (.object [("a\x07", .array [.string "x\x00"]), ("b", .object [("a\x07", .null)])])) (by decide +kernel)
  refine ⟨_, cleaned, h, (validateValue_shape h).2.2 ?_⟩
  have hinner : NamesApart (.object [("a\x07", .null)]) :=
    namesApart_object_iff.2 ⟨by decide, List.forall_mem_singleton.2 (namesApart_of_forall_ne nofun nofun)⟩
  have hitems : NamesApart (.array [.string "x\x00"]) :=
    namesApart_array_iff.2 (List.forall_mem_singleton.2 (namesApart_of_forall_ne nofun nofun))
  exact namesApart_object_iff.2 ⟨by decide, List.forall_mem_cons.2 ⟨hitems, List.forall_mem_singleton.2 hinner⟩⟩

/-- An object of which two names fall together is accepted with one member less. -/
theorem exists_validateValue_not_sameShape :
    ∃ v : Validator,
      v.validateValue "v" (.object [("a", .null), ("a\x07", .bool true)]) = .ok (.object [("a", .bool true)]) ∧
      ¬ SameShape (.object [("a", .null), ("a\x07", .bool true)]) (.object [("a", .bool true)]) := by
  obtain ⟨cleaned, h⟩ := exists_eq_ok_of_isOk (x := Validator.validateValue
    ⟨⟨0, 40, .warning, false⟩, PersonalData.Detector.none⟩ "v" (.object [("a", .null), ("a\x07", .bool true)]))
    (by decide +kernel)
  have hstripped : stripped (.object [("a", .null), ("a\x07", .bool true)]) = .object [("a", .bool true)] := rfl
  rw [clean_eq_stripped (validateValue_eq_ok_iff.1 h).2.2, hstripped] at h
  refine ⟨_, h, fun hshape => ?_⟩
  cases hshape with
  | object hnames _ horder =>
    have hlength := congrArg List.length hnames
    rw [List.length_map, List.length_map, ← horder.length_eq] at hlength
    exact absurd hlength (by decide)

end Stencil.Inspection.Validator
