import Stencil.Proofs.Basic
import Stencil.Proofs.Json.Reading
import Stencil.Stored

/-!
# What a stored template keeps

A template is stored as a value, which lists the fields of a record in ascending order (`Template.toJson`), or written
to text in the order of the record (`Template.inOrder`). Reading does not depend on the order (`fields?_of_perm`), so
all is shown of the forms that list the fields in any order (`Template.Form`): which template is read from them, and how
deep they are nested.

A form has nothing but null for a default that is missing, so a default of null comes back as none. Apart from that a
template comes back as it was, from text as far as no default is nested too deep for it (`Template.read_stored`).
-/

namespace Stencil

open Json

/-! ## The order of fields -/

namespace Json.Document

/-- A member is found by its name in whatever order the members stand. -/
lemma field?_of_perm {members members' : List (Option Text × Document)} (h : members.Perm members') (name : Text) :
    field? members name = field? members' name := by
  have hnamed : (named members name).Perm (named members' name) := (h.filter _).map _
  unfold field?
  generalize named members name = documents at hnamed
  generalize named members' name = documents' at hnamed
  rcases documents with _ | ⟨document, _ | ⟨next, rest⟩⟩
  · rw [List.nil_perm.1 hnamed]
  · rw [List.singleton_perm.1 hnamed]
  · -- a name that stands there twice does so in either order
    rcases documents' with _ | ⟨document', _ | ⟨next', rest'⟩⟩
    · exact absurd hnamed.length_eq (by simp)
    · exact absurd hnamed.length_eq (by simp)
    · rfl

/-- A record is read alike from its fields in any order. -/
theorem fields?_of_perm {members members' : List (Option Text × Document)} (h : members.Perm members')
    (names : List Text) (closed : Bool) :
    fields? names closed (.object members) = fields? names closed (.object members') := by
  have hfield : field? members = field? members' := funext (field?_of_perm h)
  simp only [fields?, h.any_eq, hfield]

lemma ofMembers_eq_map (members : List (Text × Value)) :
    Document.ofValue.ofMembers members = members.map fun member => (some member.1, .ofValue member.2) := by
  induction members with
  | nil => rfl
  | cons member rest ih => rw [Document.ofValue.ofMembers, ih, List.map_cons]

/-- The fields of an object do not hang on the order of its members. -/
lemma fields?_ofValue {members members' : List (Text × Value)} (h : members.Perm members')
    (names : List Text) (closed : Bool) :
    fields? names closed (.ofValue (.object members)) = fields? names closed (.ofValue (.object members')) := by
  rw [Document.ofValue, Document.ofValue, ofMembers_eq_map, ofMembers_eq_map]
  exact fields?_of_perm (h.map _) names closed

end Json.Document

namespace Template

/-! ## Forms -/

/-- The fields of a declaration, in the order of the record. -/
def Declaration.fields (d : Declaration) : List (Text × Value) :=
  [("name", .string d.name), ("required", .bool d.required), ("default", d.default.getD .null),
    ("type_tag", d.type.toJson)]

/-- The fields of a template whose declarations have some forms, in the order of the record. -/
def fields (t : Template) (declarations : List Value) : List (Text × Value) :=
  [("id", .string t.id), ("content", .string t.content), ("declared_variables", .array declarations),
    ("owner", .string t.owner), ("mask_pii", .bool t.masksPersonalData)]

lemma Declaration.forall_fields_iff {d : Declaration} {P : Value → Prop} :
    (∀ field ∈ d.fields, P field.2) ↔
      P (.string d.name) ∧ P (.bool d.required) ∧ P (d.default.getD .null) ∧ P d.type.toJson := by
  simp [fields]

/-- What holds of all fields of a template, said field by field. -/
lemma forall_fields_iff {t : Template} {declarations : List Value} {P : Value → Prop} :
    (∀ field ∈ t.fields declarations, P field.2) ↔
      P (.string t.id) ∧ P (.string t.content) ∧ P (.array declarations) ∧ P (.string t.owner) ∧
        P (.bool t.masksPersonalData) := by
  simp [fields]

/-- Whether a value lists the fields of a declaration, in any order. -/
def Declaration.Form (d : Declaration) (form : Value) : Prop :=
  ∃ members, form = .object members ∧ members.Perm d.fields

/-- Whether a value lists the fields of a template, in any order in each of its records. -/
def Form (t : Template) (form : Value) : Prop :=
  ∃ members declarations, form = .object members ∧ members.Perm (t.fields declarations) ∧
    List.Forall₂ Declaration.Form t.declarations declarations

/-- The stored form of a template, with its fields in the order of the records. -/
def inOrder (t : Template) : Value :=
  .object (t.fields (t.declarations.map fun d => .object d.fields))

lemma Declaration.form_toJson (d : Declaration) : d.Form d.toJson := by
  refine ⟨_, rfl, Table.ofEntries_perm ?_⟩
  simp only [List.map_cons, List.map_nil]
  decide

lemma form_toJson (t : Template) : t.Form t.toJson := by
  refine ⟨_, t.declarations.map Declaration.toJson, rfl, Table.ofEntries_perm ?_, ?_⟩
  · simp only [List.map_cons, List.map_nil]
    decide
  · exact List.forall₂_map_right_iff.2 (List.forall₂_same.2 fun d _ => d.form_toJson)

lemma form_inOrder (t : Template) : t.Form t.inOrder :=
  ⟨_, _, rfl, .refl _, List.forall₂_map_right_iff.2 (List.forall₂_same.2 fun _ _ => ⟨_, rfl, .refl _⟩)⟩

/-! ## What is kept -/

/-- What is kept of a default: null stands for none. -/
def keptDefault : Option Value → Option Value
  | some .null => none
  | default => default

/-- What is kept of a declaration. -/
def Declaration.kept (d : Declaration) : Declaration := { d with default := keptDefault d.default }

/-- What is kept of a template. -/
def kept (t : Template) : Template := { t with declarations := t.declarations.map Declaration.kept }

/-- Whether all defaults that a template declares have a property. -/
def Defaults (P : Value → Prop) (t : Template) : Prop := ∀ d ∈ t.declarations, ∀ v, d.default = some v → P v

lemma keptDefault_eq_self_iff {default : Option Value} : keptDefault default = default ↔ default ≠ some .null := by
  rcases default with _ | v
  · simp [keptDefault]
  · cases v <;> simp [keptDefault]

/-- A declaration is kept as it is unless its default is `null`. -/
lemma Declaration.kept_eq_self_iff {d : Declaration} : d.kept = d ↔ ∀ v, d.default = some v → v ≠ .null := by
  obtain ⟨name, required, default, type⟩ := d
  simp only [kept, mk.injEq, true_and, and_true, keptDefault_eq_self_iff]
  constructor
  · rintro h v rfl rfl
    exact h rfl
  · rintro h rfl
    exact h _ rfl rfl

/-- Nothing but null is lost. -/
lemma kept_eq_self_iff {t : Template} : t.kept = t ↔ t.Defaults (· ≠ .null) := by
  obtain ⟨id, content, declarations, owner, masks⟩ := t
  have hall := List.map_inj_left (l := declarations) (f := Declaration.kept) (g := fun d => d)
  rw [List.map_id'] at hall
  simp only [kept, Defaults, mk.injEq, true_and, and_true, hall, Declaration.kept_eq_self_iff]

/-! ## Reading a form -/

/-- A default is read back as the one that is kept. -/
lemma nullable?_getD {default : Option Value} (h : ∀ v, default = some v → v.Ordered) :
    Document.nullable? (.ofValue (default.getD .null)) = some (keptDefault default) := by
  rcases default with _ | v
  · rfl
  · have hv := congrArg (Option.map some) (toValue?_ofValue (h v rfl))
    cases v with
    | null => rfl
    | bool | number | string | array | object => exact hv

lemma TypeTag.ofDocument?_toJson (tag : TypeTag) : TypeTag.ofDocument? (.ofValue tag.toJson) = some tag := by
  cases tag <;> rfl

/-- Every form of a declaration is read as what is kept of it. -/
lemma Declaration.Form.ofDocument? {d : Declaration} {form : Value} (hform : d.Form form)
    (h : ∀ v, d.default = some v → v.Ordered) : Declaration.ofDocument? (.ofValue form) = some d.kept := by
  obtain ⟨members, rfl, hmembers⟩ := hform
  have hfields : (Document.ofValue (.object d.fields)).fields? ["name", "required", "default", "type_tag"] true =
    some [some (.string (some d.name)), some (.bool d.required), some (.ofValue (d.default.getD .null)),
      some (.ofValue d.type.toJson)] := rfl
  rw [Declaration.ofDocument?, Document.fields?_ofValue hmembers, hfields]
  simp [Document.required?, Document.defaulted?, Document.text?, Document.bool?, nullable?_getD h,
    TypeTag.ofDocument?_toJson, kept]

/-- Declarations in any of their forms are read one by one. -/
lemma mapM_ofDocument? {declarations : List Declaration} {forms : List Value}
    (hforms : List.Forall₂ Declaration.Form declarations forms)
    (h : ∀ d ∈ declarations, ∀ v, d.default = some v → v.Ordered) :
    (Document.ofValue.ofValues forms).mapM Declaration.ofDocument? = some (declarations.map Declaration.kept) := by
  induction hforms with
  | nil => rfl
  | cons hform _ ih =>
    obtain ⟨hd, hrest⟩ := List.forall_mem_cons.1 h
    rw [Document.ofValue.ofValues, List.mapM_cons, hform.ofDocument? hd, ih hrest]
    rfl

/-- What is kept of a template is read from each of its forms. -/
lemma Form.ofDocument? {t : Template} {form : Value} (hform : t.Form form) (h : t.Defaults Value.Ordered) :
    ofDocument? (.ofValue form) = some t.kept := by
  obtain ⟨members, declarations, rfl, hmembers, hdeclarations⟩ := hform
  have hfields : (Document.ofValue (.object (t.fields declarations))).fields?
      ["id", "content", "declared_variables", "owner", "mask_pii"] true =
    some [some (.string (some t.id)), some (.string (some t.content)),
      some (.array (Document.ofValue.ofValues declarations)), some (.string (some t.owner)),
      some (.bool t.masksPersonalData)] := rfl
  have hlist := mapM_ofDocument? hdeclarations h
  rw [Template.ofDocument?, Document.fields?_ofValue hmembers, hfields]
  simp [Document.required?, Document.defaulted?, Document.text?, Document.bool?, Document.list?, hlist, kept]

/-! ## Text -/

/-- A document is read from the text of its value unless it is nested too deep. -/
lemma readBounded?_compact {v : Value} (h : v.Integral) :
    Document.readBounded? v.compact = if v.depth ≤ Document.maxDepth then some (.ofValue v) else none := by
  rw [Document.readBounded?, read?_compact h, Option.filter_some, depth_ofValue]
  simp only [decide_eq_true_eq]

/-- A form has only integers that fit if the default has. -/
lemma Declaration.Form.integral {d : Declaration} {form : Value} (hform : d.Form form)
    (h : ∀ v, d.default = some v → v.Integral) : form.Integral := by
  obtain ⟨members, rfl, hmembers⟩ := hform
  have hdefault : (d.default.getD .null).Integral := by
    cases hd : d.default with
    | none => exact .null
    | some v => exact h v hd
  have hfields : ∀ field ∈ d.fields, field.2.Integral :=
    forall_fields_iff.2 ⟨.string _, .bool _, hdefault, .string _⟩
  exact .object fun member hmember => hfields member (hmembers.mem_iff.1 hmember)

/-- A form of a template has only integers that fit if all its defaults have. -/
lemma Form.integral {t : Template} {form : Value} (hform : t.Form form) (h : t.Defaults Value.Integral) :
    form.Integral := by
  obtain ⟨members, declarations, rfl, hmembers, hdeclarations⟩ := hform
  have hlist : ∀ declaration ∈ declarations, declaration.Integral := by
    intro declaration hdeclaration
    obtain ⟨d, hd, hform⟩ := exists_mem_of_forall₂ hdeclarations.flip hdeclaration
    exact Declaration.Form.integral hform (h d hd)
  have hfields : ∀ field ∈ t.fields declarations, field.2.Integral :=
    forall_fields_iff.2 ⟨.string _, .string _, .array hlist, .string _, .bool _⟩
  exact .object fun member hmember => hfields member (hmembers.mem_iff.1 hmember)

lemma depth_object_le_iff {members fields : List (Text × Value)} (h : members.Perm fields) {n : Nat} :
    (Value.object members).depth ≤ n + 1 ↔ ∀ field ∈ fields, field.2.depth ≤ n := by
  rw [Value.depth, Nat.add_comm 1, Nat.add_le_add_iff_right, depthMembers_le_iff]
  simp only [h.mem_iff]

/-- How deep a form is hangs on the default alone. -/
lemma Declaration.Form.depth_le_iff {d : Declaration} {form : Value} (hform : d.Form form) {n : Nat} :
    form.depth ≤ n + 1 ↔ ∀ v, d.default = some v → v.depth ≤ n := by
  obtain ⟨members, rfl, hmembers⟩ := hform
  rw [depth_object_le_iff hmembers, forall_fields_iff (P := fun v => v.depth ≤ n)]
  cases hd : d.default with
  | none => simp [Value.depth, TypeTag.toJson]
  | some v => simp [Value.depth, TypeTag.toJson]

/-- Three arrays and objects of a form lie around a default. -/
lemma Form.depth_le_iff {t : Template} {form : Value} (hform : t.Form form) {n : Nat} :
    form.depth ≤ n + 3 ↔ t.Defaults fun v => v.depth ≤ n := by
  obtain ⟨members, declarations, rfl, hmembers, hdeclarations⟩ := hform
  have hlist : (Value.object members).depth ≤ n + 3 ↔ ∀ declaration ∈ declarations, declaration.depth ≤ n + 1 := by
    rw [depth_object_le_iff hmembers, forall_fields_iff (P := fun v => v.depth ≤ n + 2)]
    simp [Value.depth, ← depthItems_le_iff, Nat.add_comm 1]
  rw [hlist]
  constructor
  · intro h d hd
    obtain ⟨declaration, hdeclaration, hform⟩ := exists_mem_of_forall₂ hdeclarations hd
    exact (Declaration.Form.depth_le_iff hform).1 (h declaration hdeclaration)
  · intro h declaration hdeclaration
    obtain ⟨d, hd, hform⟩ := exists_mem_of_forall₂ hdeclarations.flip hdeclaration
    exact (Declaration.Form.depth_le_iff hform).2 (h d hd)

/-- What is kept of a template is read from the text of each of its forms, unless a default is nested too deep. -/
lemma Form.read?_compact {t : Template} {form : Value} (hform : t.Form form) (hordered : t.Defaults Value.Ordered)
    (hintegral : t.Defaults Value.Integral) :
    (t.Defaults (fun v => v.depth + 3 ≤ Document.maxDepth) → read? form.compact = some t.kept) ∧
      (¬ t.Defaults (fun v => v.depth + 3 ≤ Document.maxDepth) → read? form.compact = none) := by
  have hdepth : form.depth ≤ Document.maxDepth ↔ t.Defaults fun v => v.depth + 3 ≤ Document.maxDepth := by
    rw [show Document.maxDepth = 124 + 3 from rfl, hform.depth_le_iff]
    simp only [Nat.add_le_add_iff_right]
  rw [read?, readBounded?_compact (hform.integral hintegral)]
  refine ⟨fun h => ?_, fun h => ?_⟩
  · rw [if_pos (hdepth.2 h)]
    exact hform.ofDocument? hordered
  · rw [if_neg (mt hdepth.1 h)]
    rfl

/-- What is kept of a template comes back from its stored form: from the value always, and from either of its texts
unless one of its defaults is nested too deep. This is the template itself if none of its defaults is null. A default is
a value as values are held, with the members of its objects in ascending order, and without doubles. -/
theorem read_stored {t : Template} (hordered : t.Defaults Value.Ordered) (hintegral : t.Defaults Value.Integral) :
    ofJson? t.toJson = some t.kept ∧ (t.kept = t ↔ t.Defaults (· ≠ .null)) ∧
      ∀ form, form = t.toJson ∨ form = t.inOrder →
        (t.Defaults (fun v => v.depth + 3 ≤ Document.maxDepth) → read? form.compact = some t.kept) ∧
          (¬ t.Defaults (fun v => v.depth + 3 ≤ Document.maxDepth) → read? form.compact = none) := by
  refine ⟨t.form_toJson.ofDocument? hordered, kept_eq_self_iff, ?_⟩
  rintro form (rfl | rfl)
  · exact t.form_toJson.read?_compact hordered hintegral
  · exact t.form_inOrder.read?_compact hordered hintegral

/-- A template with a required number and a default that holds an array. -/
def invoice : Template :=
  ((((new "invoice" "{{ total }}").withDeclaration ((Declaration.mandatory "total").withType .number)).withDeclaration
    (.optional "terms" (some (.object [("days", .array [.number (.int (-30)), .null])])))).withOwner
      "billing").withMasking true

/-- The text of a template with one declaration of each kind is read back. -/
theorem read_stored_invoice :
    invoice.Defaults Value.Ordered ∧ invoice.Defaults Value.Integral ∧ ofJson? invoice.toJson = some invoice ∧
      read? invoice.inOrder.compact = some invoice := by
  have hone : ∀ P : Value → Prop,
      P (.object [("days", .array [.number (.int (-30)), .null])]) → invoice.Defaults P := by
    intro P h d hd v hv
    rcases List.mem_cons.1 hd with rfl | hd
    · exact absurd hv nofun
    · obtain rfl := List.mem_singleton.1 hd
      exact Option.some.inj hv ▸ h
  have hordered : invoice.Defaults Value.Ordered := hone _ <| .object (List.pairwise_singleton _ _) <| by
    simp only [List.forall_mem_cons]
    refine ⟨.array ?_, nofun⟩
    simp only [List.forall_mem_cons]
    exact ⟨.number _, .null, nofun⟩
  have hintegral : invoice.Defaults Value.Integral := hone _ <| .object <| by
    simp only [List.forall_mem_cons]
    refine ⟨.array ?_, nofun⟩
    simp only [List.forall_mem_cons]
    exact ⟨.number ⟨by decide, by decide⟩, .null, nofun⟩
  obtain ⟨hvalue, hkept, htext⟩ := read_stored hordered hintegral
  rw [hkept.2 (hone _ nofun)] at hvalue htext
  exact ⟨hordered, hintegral, hvalue, (htext _ (.inr rfl)).1 (hone _ (by decide))⟩

/-- Arrays around arrays, with null inside. -/
def arrays : Nat → Value
  | 0 => .null
  | n + 1 => .array [arrays n]

lemma depth_arrays (n : Nat) : (arrays n).depth = n := by
  induction n with
  | zero => rfl
  | succ n ih =>
    rw [arrays, Value.depth, Value.depth.depthItems, ih, Value.depth.depthItems, Nat.max_zero, Nat.add_comm]

lemma ordered_arrays (n : Nat) : (arrays n).Ordered := by
  induction n with
  | zero => exact .null
  | succ n ih => exact .array (List.forall_mem_singleton.2 ih)

lemma integral_arrays (n : Nat) : (arrays n).Integral := by
  induction n with
  | zero => exact .null
  | succ n ih => exact .array (List.forall_mem_singleton.2 ih)

/-- A template with one variable of a default. -/
def withDefault (v : Value) : Template := (new "t" "{{ n }}").withDeclaration (.optional "n" (some v))

lemma defaults_withDefault_iff {P : Value → Prop} {v : Value} : (withDefault v).Defaults P ↔ P v := by
  simp [Defaults, withDefault, withDeclaration, new, Declaration.optional]

/-- Not all that may be a default is kept: null is lost, and text refuses arrays that are nested too deep. -/
theorem stored_loses :
    ofJson? (withDefault .null).toJson ≠ some (withDefault .null) ∧
      read? (withDefault (arrays 125)).inOrder.compact = none := by
  constructor
  · intro h
    have hordered : (withDefault .null).Defaults Value.Ordered := defaults_withDefault_iff.2 .null
    have hkept : (withDefault .null).kept = withDefault .null :=
      Option.some.inj (((withDefault .null).form_toJson.ofDocument? hordered).symm.trans h)
    exact defaults_withDefault_iff.1 (kept_eq_self_iff.1 hkept) rfl
  · refine ((form_inOrder _).read?_compact (defaults_withDefault_iff.2 (ordered_arrays 125))
      (defaults_withDefault_iff.2 (integral_arrays 125))).2 ?_
    rw [defaults_withDefault_iff, depth_arrays]
    decide

end Template

end Stencil
