import Stencil.Proofs.Context.Binding

/-!
# Types of what is bound

A declaration may bind its name to a type. The first declaration of a name is held against what the caller supplies
for it, and nothing else is: neither a further declaration of the name nor a default is looked at. There a value that is
bound has the declared type just if it had it from the beginning, since cleaning makes no value one of another type
(`CleanContext.obeys_of_ofContext`).

So all that is bound is of its declared types if the template contradicts itself nowhere (`Template.Consistent`), and
need not be otherwise (`CleanContext.exists_not_obeys`).
-/

namespace Stencil

open Json Inspection

/-! ## What a template declares -/

namespace Template

/-- Whether there is a value to be bound to a name: for a variable, or for a list. -/
def Offers (t : Template) (context : Context) (name : Text) (value : Value) : Prop :=
  t.source? context name = some value ∨ (context.list? name).map .array = some value

/-- Whether a template contradicts itself nowhere: a name has one type only, and its defaults are of that type. -/
structure Consistent (t : Template) : Prop where
  types : ∀ d ∈ t.declarations, ∀ d' ∈ t.declarations, d.name = d'.name → d.type = d'.type
  defaults : ∀ d ∈ t.declarations, ∀ default, d.default = some default → d.type.accepts default = true

variable {t : Template} {d : Declaration} {name : Text}

lemma exists_of_default? {declarations : List Declaration} {default : Value}
    (h : default? declarations name = some default) : ∃ d ∈ declarations, d.name = name ∧ d.default = some default := by
  obtain ⟨d, hd, hdefault⟩ := List.exists_of_findSome?_eq_some h
  split at hdefault
  · rename_i hname
    exact ⟨d, hd, hname, hdefault⟩
  · exact absurd hdefault (by simp)

/-- A name that is declared has a first declaration. -/
lemma exists_declaration? (h : d ∈ t.declarations) :
    ∃ first ∈ t.declarations, t.declaration? d.name = some first ∧ first.name = d.name := by
  cases hfirst : t.declaration? d.name with
  | none =>
    have hnone := List.find?_eq_none.1 hfirst d h
    simp at hnone
  | some first =>
    refine ⟨first, List.mem_of_find?_eq_some hfirst, rfl, ?_⟩
    have hname := List.find?_some hfirst
    simpa using hname

end Template

/-! ## Cleaning and types -/

/-- Cleaning makes no value one of another type. -/
lemma Inspection.Validator.accepts_clean {v : Validator} {name : Text} {room : Nat} {value cleaned : Value}
    (h : v.clean name room value = .ok cleaned) (type : Template.TypeTag) :
    type.accepts cleaned = type.accepts value := by
  cases value with
  | null | bool | number =>
    rw [clean] at h
    rw [Except.ok.inj h]
  | string t =>
    rw [clean, map_eq_ok_iff] at h
    obtain ⟨_, _, rfl⟩ := h
    cases type <;> rfl
  | array items =>
    obtain ⟨_, _, rfl⟩ := clean_array_eq_ok_iff.1 h
    cases type <;> rfl
  | object members =>
    obtain ⟨_, _, rfl⟩ := clean_object_eq_ok_iff.1 h
    cases type <;> rfl

namespace CleanContext

variable {v : Validator} {t : Template} {context : Context} {c : CleanContext} {d : Template.Declaration}

/-- Whether all that is bound to the name of a declaration is of its type. -/
def Obeys (c : CleanContext) (d : Template.Declaration) : Prop :=
  ∀ value, c.value? d.name = some value ∨ c.list? d.name = some value → d.type.accepts value = true

/-- What has been cleaned is of a type just if it was before. -/
lemma accepts_iff_of_rel {name : Text} {source cleaned : Option Value} (type : Template.TypeTag)
    (h : Option.Rel (fun value cleaned => v.validateValue name value = .ok cleaned) source cleaned) :
    (∀ value, cleaned = some value → type.accepts value = true) ↔
      ∀ value, source = some value → type.accepts value = true := by
  cases h with
  | none => simp
  | some hclean =>
    have hsame := Validator.accepts_clean (Validator.validateValue_eq_ok_iff.1 hclean).2.2 type
    simp [hsame]

lemma forall_or_eq_some {α : Type} {p : α → Prop} {a b : Option α} :
    (∀ x, a = some x ∨ b = some x → p x) ↔ (∀ x, a = some x → p x) ∧ ∀ x, b = some x → p x := by
  simp only [or_imp, forall_and]

/-- What is bound obeys a declaration just if what there is to be bound is of its type. -/
lemma Binds.obeys_iff (h : Binds v t context c) :
    c.Obeys d ↔ ∀ value, t.Offers context d.name value → d.type.accepts value = true := by
  unfold Obeys Template.Offers
  rw [forall_or_eq_some, forall_or_eq_some, accepts_iff_of_rel d.type (h.values d.name),
    accepts_iff_of_rel d.type (h.lists d.name)]

/-- What has passed as an entry is of the type of the first declaration of its name. -/
lemma accepts_of_cleanEntry {value cleaned : Value} (hfirst : t.declaration? d.name = some d)
    (h : cleanEntry v t d.name value = .ok cleaned) : d.type.accepts cleaned = true := by
  obtain ⟨-, htype⟩ := cleanEntry_eq_ok_iff.1 h
  rw [Template.checkType, hfirst] at htype
  dsimp only at htype
  split at htype
  · assumption
  · exact absurd htype (by simp)

/-- What the caller supplies obeys the first declaration of its name. -/
lemma obeys_of_supplies (h : ofContext v t context = .ok c) (hfirst : t.declaration? d.name = some d)
    (hsupplies : context.supplies d.name = true) : c.Obeys d := by
  obtain ⟨supplied, hsupplied, -, -, hfills⟩ := supplied_of_ofContext h
  have hbound : (supplied.get? d.name).isSome = true := (hsupplied.isSome_get? d.name).trans hsupplies
  intro value hvalue
  rw [hfills.bound d.name hbound, list?, hfills.lists] at hvalue
  rcases hvalue with hvalue | hvalue
  · obtain ⟨_, -, hentry⟩ := exists_of_rel_some (hvalue ▸ hsupplied.value? d.name)
    exact accepts_of_cleanEntry hfirst hentry
  · have hlist := hsupplied.list? d.name
    rw [list?, hvalue] at hlist
    obtain ⟨_, -, hentry⟩ := exists_of_rel_some hlist
    exact accepts_of_cleanEntry hfirst hentry

/-- In a template that contradicts itself nowhere, every declaration is obeyed. -/
lemma obeys_of_consistent (h : ofContext v t context = .ok c) (ht : t.Consistent) (hd : d ∈ t.declarations) :
    c.Obeys d := by
  obtain ⟨first, hmem, hfirst, hname⟩ := Template.exists_declaration? hd
  have htype : first.type = d.type := ht.types first hmem d hd hname
  cases hsupplies : context.supplies d.name with
  | true =>
    have hobeys := obeys_of_supplies h (hname ▸ hfirst) (hname ▸ hsupplies)
    rw [Obeys, hname, htype] at hobeys
    exact hobeys
  | false =>
    -- only a default can be bound
    obtain ⟨-, hnoList⟩ := Bool.or_eq_false_iff.1 hsupplies
    rw [Option.isSome_eq_false_iff, Option.isNone_iff_eq_none] at hnoList
    refine (binds_of_ofContext h).obeys_iff.2 fun value hvalue => ?_
    rw [Template.Offers, Template.source?, hsupplies, if_neg Bool.false_ne_true, hnoList] at hvalue
    rcases hvalue with hdefault | hlist
    · obtain ⟨d', hd', hname', hdefault'⟩ := Template.exists_of_default? hdefault
      rw [← ht.types d' hd' d hd hname']
      exact ht.defaults d' hd' value hdefault'
    · exact absurd hlist (by simp)

/-- What is bound obeys a declaration just if what there is to be bound is of its type. What the caller supplies is held
against the first declaration of its name, so that one is obeyed; and in a template that contradicts itself nowhere,
every declaration is. -/
theorem obeys_of_ofContext (h : ofContext v t context = .ok c) :
    (∀ d, c.Obeys d ↔ ∀ value, t.Offers context d.name value → d.type.accepts value = true) ∧
    (∀ d, t.declaration? d.name = some d → context.supplies d.name = true → c.Obeys d) ∧
    (t.Consistent → ∀ d ∈ t.declarations, c.Obeys d) :=
  ⟨fun _ => (binds_of_ofContext h).obeys_iff, fun _ => obeys_of_supplies h,
    fun ht _ => obeys_of_consistent h ht⟩

/-- A template with a name for a text, and a number that is one if it is left out. -/
def order : Template :=
  { Template.new "t" "x" with
    declarations := [(Template.Declaration.mandatory "name").withType .string,
      (Template.Declaration.optional "n" (some (.number (.int 1)))).withType .number] }

/-- Whether the number is left out or not, it is one. -/
theorem obeys_order :
    ∃ c, ofContext shortTexts order named = .ok c ∧ order.Consistent ∧ ∀ d ∈ order.declarations, c.Obeys d := by
  have hconsistent : order.Consistent := by
    constructor
    case types => decide
    case defaults => simp [order, Template.Declaration.mandatory, Template.Declaration.optional,
      Template.Declaration.withType, Template.TypeTag.accepts]
  obtain ⟨c, hcontext⟩ : ∃ c, ofContext shortTexts order named = .ok c := exists_eq_ok_of_isOk (by decide +kernel)
  exact ⟨c, hcontext, hconsistent, (obeys_of_ofContext hcontext).2.2 hconsistent⟩

/-- A template whose default is not of the type that it declares. -/
def misfit : Template :=
  { Template.new "t" "x" with
    declarations := [(Template.Declaration.optional "n" (some (.string "x"))).withType .number] }

/-- A template that declares a name twice. -/
def contradiction : Template :=
  { Template.new "t" "x" with
    declarations := [(Template.Declaration.mandatory "name").withType .string,
      (Template.Declaration.mandatory "name").withType .number] }

/-- A text is bound to a name that is declared as a number: by a default, or by the caller where another declaration
comes first. -/
theorem exists_not_obeys :
    (∃ c, ofContext shortTexts misfit .empty = .ok c ∧ ∃ d ∈ misfit.declarations, ¬ c.Obeys d) ∧
      ∃ c, ofContext shortTexts contradiction named = .ok c ∧ ∃ d ∈ contradiction.declarations, ¬ c.Obeys d := by
  constructor
  · obtain ⟨c, hcontext⟩ : ∃ c, ofContext shortTexts misfit .empty = .ok c := exists_eq_ok_of_isOk (by decide +kernel)
    refine ⟨c, hcontext, _, List.mem_singleton_self _, fun hobeys => ?_⟩
    have hnumber := (binds_of_ofContext hcontext).obeys_iff.1 hobeys (.string "x") (.inl rfl)
    exact absurd hnumber (by decide)
  · obtain ⟨c, hcontext⟩ : ∃ c, ofContext shortTexts contradiction named = .ok c :=
      exists_eq_ok_of_isOk (by decide +kernel)
    refine ⟨c, hcontext, _, List.mem_cons_of_mem _ (List.mem_singleton_self _), fun hobeys => ?_⟩
    have hnumber := (binds_of_ofContext hcontext).obeys_iff.1 hobeys (.string "Ann") (.inl rfl)
    exact absurd hnumber (by decide)

end CleanContext

end Stencil
