import Stencil.Proofs.Context.Binding

/-!
# Contexts in another order

A caller's maps give their entries in an order that nobody can rely on. Values and lists are put into ascending order
before they are looked at; names of regions are not, so of several wrong ones the first is told that the caller's map
happens to give.

Main statement: the answer to a caller is the same in every order just if some value or list is refused, or all the
wrong names are shown alike (`CleanContext.ofContext_reordered`).
-/

namespace Stencil

open Json Inspection

namespace Context

/-- No name is supplied twice: the entries can be those of maps. -/
structure Distinct (context : Context) : Prop where
  values : (context.values.map (·.1)).Nodup
  regions : (context.regions.map (·.1)).Nodup
  lists : (context.lists.map (·.1)).Nodup

/-- The same entries, in whatever order. -/
structure SameEntries (context other : Context) : Prop where
  values : context.values.Perm other.values
  regions : context.regions.Perm other.regions
  lists : context.lists.Perm other.lists

/-- The names of regions that no region may have, in the order of the caller's map. -/
def wrongRegions (context : Context) : List Text :=
  (context.regions.map (·.1)).filter fun name => !Template.isVariableName name

lemma SameEntries.mem_wrongRegions {context other : Context} (h : context.SameEntries other) {name : Text} :
    name ∈ other.wrongRegions ↔ name ∈ context.wrongRegions :=
  ((h.regions.map _).filter _).mem_iff.symm

end Context

/-- Whether the values and lists are accepted that a caller supplies, each under its name. -/
structure Template.AcceptsEntries (t : Template) (v : Validator) (context : Context) : Prop where
  values : ∀ entry ∈ context.values, t.Accepts v entry.1 entry.2
  lists : ∀ entry ∈ context.lists, t.Accepts v entry.1 (.array entry.2)

namespace CleanContext

/-- The same answer to a caller: the same clean context, or faults of one kind in the same words. -/
inductive SameAnswer : Except Fault CleanContext → Except Fault CleanContext → Prop
  | clean (c : CleanContext) : SameAnswer (.ok c) (.ok c)
  | fault {f f' : Fault} (hcode : f.code = f'.code) (hreason : f.reason = f'.reason)
      (hmessage : f.message = f'.message) :
      SameAnswer (.error f) (.error f')

lemma SameAnswer.refl (answer : Except Fault CleanContext) : SameAnswer answer answer := by
  cases answer with
  | ok c => exact .clean c
  | error f => exact .fault rfl rfl rfl

/-- The answer in which a name of a region is told. -/
def wrongRegion (name : Text) : Except Fault CleanContext := .error (.context (.invalidRegionName name))

/-- Two wrong names of regions are told alike if messages show them alike. -/
lemma sameAnswer_wrongRegion_iff {name name' : Text} :
    SameAnswer (wrongRegion name) (wrongRegion name') ↔ Fault.shownName name = Fault.shownName name' := by
  have hmessage : ∀ name, (Fault.context (.invalidRegionName name)).message =
      "invalid context: ".toList ++ ("invalid section name `".toList ++ Fault.shownName name ++ "`".toList) :=
    fun _ => rfl
  constructor
  · intro h
    cases h with
    | fault _ _ hsame => simpa only [hmessage, List.append_cancel_left_eq, List.append_cancel_right_eq] using hsame
  · intro h
    exact .fault rfl rfl (by rw [hmessage, hmessage, h])

variable {v : Validator} {t : Template} {context other : Context}

/-! ## Names of regions -/

/-- The first wrong name is told, in the order of the caller's map. -/
lemma checkRegions_eq (context : Context) :
    checkRegions context.regions =
      context.wrongRegions.head?.elim (.ok ()) fun name => .error (.context (.invalidRegionName name)) := by
  have hhead : context.wrongRegions.head? =
      (context.regions.find? fun entry => !Template.isVariableName entry.1).map (·.1) := by
    rw [Context.wrongRegions, List.head?_filter, List.find?_map]
    rfl
  unfold checkRegions
  split
  · rename_i name flag hfound
    have hfound : (context.regions.find? fun entry => !Template.isVariableName entry.1) = some (name, flag) := hfound
    rw [hhead, hfound]
    rfl
  · rename_i hnone
    have hnone : (context.regions.find? fun entry => !Template.isVariableName entry.1) = none := hnone
    rw [hhead, hnone]
    rfl

/-- Any of a context's wrong names can be the first. -/
lemma exists_sameEntries_head? {name : Text} (h : name ∈ context.wrongRegions) :
    ∃ other, context.SameEntries other ∧ other.wrongRegions.head? = some name := by
  obtain ⟨hname, hwrong⟩ := List.mem_filter.1 h
  obtain ⟨entry, hentry, rfl⟩ := List.mem_map.1 hname
  obtain ⟨before, behind, hregions⟩ := List.append_of_mem hentry
  refine ⟨{ context with regions := entry :: (before ++ behind) }, ⟨.refl _, ?_, .refl _⟩, ?_⟩
  · rw [hregions]
    exact List.perm_middle
  · simp only [Context.wrongRegions, List.map_cons, List.filter_cons, hwrong, if_true, List.head?_cons]

/-! ## Values and lists -/

/-- Entries with names of their own are cleaned if and only if each of them is accepted. -/
lemma exists_cleanEntries_iff {entries : List (Text × Value)} (hnodup : (entries.map (·.1)).Nodup) :
    (∃ table, cleanEntries v t (Table.ofEntries entries) = .ok table) ↔
      ∀ entry ∈ entries, t.Accepts v entry.1 entry.2 := by
  have hmem : ∀ {entry}, entry ∈ Table.ofEntries entries ↔ entry ∈ entries := (Table.ofEntries_perm hnodup).mem_iff
  constructor
  · rintro ⟨table, htable⟩ entry hentry
    obtain ⟨cleaned, -, -, hcleaned⟩ := exists_mem_of_forall₂ (cleanEntries_eq_ok_iff.1 htable) (hmem.2 hentry)
    exact ⟨cleaned.2, cleanEntry_eq_ok_iff.1 hcleaned⟩
  · intro h
    exact exists_cleanEntries fun entry hentry => h entry (hmem.1 hentry)

lemma nodup_listEntries (h : context.Distinct) : ((listEntries context).map (·.1)).Nodup := by
  rw [listEntries, List.map_map]
  exact h.lists

lemma forall_mem_listEntries_iff :
    (∀ entry ∈ listEntries context, t.Accepts v entry.1 entry.2) ↔
      ∀ entry ∈ context.lists, t.Accepts v entry.1 (.array entry.2) := by
  rw [listEntries, List.forall_mem_map]

/-- What is left to do once values, lists and names of regions are accepted. -/
def completed (v : Validator) (t : Template) (context : Context) (values lists : Table Text Value) :
    Except Fault CleanContext := do
  let supplied : CleanContext := ⟨values, Table.ofEntries context.regions, lists⟩
  checkRequired t supplied
  mergeDefaults v t.declarations supplied

/-- Nothing but the names of regions is looked at in the caller's order. -/
lemma ofContext_of_sameEntries (hdistinct : context.Distinct) (h : context.SameEntries other) :
    ofContext v t other = (do
      let values ← cleanEntries v t (Table.ofEntries context.values)
      let lists ← cleanEntries v t (Table.ofEntries (listEntries context))
      checkRegions other.regions
      completed v t context values lists) := by
  rw [ofContext_eq, Table.ofEntries_eq_of_perm hdistinct.values h.values,
    Table.ofEntries_eq_of_perm (nodup_listEntries hdistinct) (h.lists.map _)]
  unfold completed
  rw [Table.ofEntries_eq_of_perm hdistinct.regions h.regions]
  rfl

/-- Values and lists decide first; only then do the names of regions matter, of which the first wrong one is told. -/
lemma ofContext_cases (v : Validator) (t : Template) (hdistinct : context.Distinct) :
    (¬ t.AcceptsEntries v context ∧ ∃ fault, ∀ other, context.SameEntries other → ofContext v t other = .error fault) ∨
    (t.AcceptsEntries v context ∧ ∃ answer, ∀ other, context.SameEntries other →
      ofContext v t other = other.wrongRegions.head?.elim answer wrongRegion) := by
  have hvalues := exists_cleanEntries_iff (v := v) (t := t) hdistinct.values
  have hlists := exists_cleanEntries_iff (v := v) (t := t) (nodup_listEntries hdistinct)
  rw [forall_mem_listEntries_iff] at hlists
  -- the values are cleaned before the lists and both before the names of regions, whatever the order of the entries
  cases hcleanValues : cleanEntries v t (Table.ofEntries context.values) with
  | error fault =>
    refine .inl ⟨fun h => ?_, fault, fun other hother => ?_⟩
    · obtain ⟨table, htable⟩ := hvalues.2 h.values
      exact absurd (hcleanValues.symm.trans htable) (by simp)
    · rw [ofContext_of_sameEntries hdistinct hother, hcleanValues]
      rfl
  | ok values =>
    cases hcleanLists : cleanEntries v t (Table.ofEntries (listEntries context)) with
    | error fault =>
      refine .inl ⟨fun h => ?_, fault, fun other hother => ?_⟩
      · obtain ⟨table, htable⟩ := hlists.2 h.lists
        exact absurd (hcleanLists.symm.trans htable) (by simp)
      · rw [ofContext_of_sameEntries hdistinct hother, hcleanValues, hcleanLists]
        rfl
    | ok lists =>
      have haccepted : t.AcceptsEntries v context :=
        ⟨hvalues.1 ⟨values, hcleanValues⟩, hlists.1 ⟨lists, hcleanLists⟩⟩
      refine .inr ⟨haccepted, completed v t context values lists, fun other hother => ?_⟩
      rw [ofContext_of_sameEntries hdistinct hother, hcleanValues, hcleanLists, checkRegions_eq]
      cases other.wrongRegions.head? <;> rfl

/-- Either the order of the entries does not matter at all, or it is a matter of which wrong name of a region is told,
and each of them is told in some order. -/
lemma ofContext_steady_or_wrong (v : Validator) (t : Template) (hdistinct : context.Distinct) :
    ((t.AcceptsEntries v context → context.wrongRegions = []) ∧
      ∃ answer, ∀ other, context.SameEntries other → ofContext v t other = answer) ∨
    (t.AcceptsEntries v context ∧
      (∀ other, context.SameEntries other → ∃ name ∈ context.wrongRegions, ofContext v t other = wrongRegion name) ∧
      ∀ name ∈ context.wrongRegions, ∃ other, context.SameEntries other ∧ ofContext v t other = wrongRegion name) := by
  obtain ⟨hrefused, fault, hfault⟩ | ⟨haccepted, answer, hanswer⟩ := ofContext_cases v t hdistinct
  · exact .inl ⟨fun h => absurd h hrefused, _, hfault⟩
  -- if all entries are accepted, the first wrong name in the given order is told
  by_cases hwrong : context.wrongRegions = []
  · refine .inl ⟨fun _ => hwrong, answer, fun other hother => ?_⟩
    have hnone : other.wrongRegions = [] := by
      refine List.eq_nil_iff_forall_not_mem.2 fun name hname => ?_
      rw [hother.mem_wrongRegions, hwrong] at hname
      exact absurd hname List.not_mem_nil
    rw [hanswer other hother, hnone]
    rfl
  · refine .inr ⟨haccepted, fun other hother => ?_, fun name hname => ?_⟩
    · obtain ⟨name, hname⟩ := List.exists_mem_of_ne_nil _ hwrong
      obtain ⟨first, rest, hfirst⟩ := List.exists_cons_of_ne_nil (List.ne_nil_of_mem (hother.mem_wrongRegions.2 hname))
      refine ⟨first, hother.mem_wrongRegions.1 (hfirst ▸ List.mem_cons_self), ?_⟩
      rw [hanswer other hother, hfirst]
      rfl
    · obtain ⟨other, hother, hfirst⟩ := exists_sameEntries_head? hname
      refine ⟨other, hother, ?_⟩
      rw [hanswer other hother, hfirst]
      rfl

/-- Contexts of the same entries are answered alike, or each with one of their wrong names of regions; and whatever the
order is the answer is the same to a caller just if some value or list is refused, or messages show all the wrong names
alike. -/
theorem ofContext_reordered (v : Validator) (t : Template) (hdistinct : context.Distinct) :
    (∀ other, context.SameEntries other → ofContext v t other = ofContext v t context ∨
      ∃ name ∈ context.wrongRegions, ∃ name' ∈ context.wrongRegions,
        ofContext v t context = wrongRegion name ∧ ofContext v t other = wrongRegion name') ∧
    ((∀ other, context.SameEntries other → SameAnswer (ofContext v t context) (ofContext v t other)) ↔
      (t.AcceptsEntries v context → ∀ name ∈ context.wrongRegions, ∀ name' ∈ context.wrongRegions,
        Fault.shownName name = Fault.shownName name')) := by
  have hself : context.SameEntries context := ⟨.refl _, .refl _, .refl _⟩
  -- either one answer is given in all orders, or each order tells one of the wrong names
  obtain ⟨hsteady, answer, hanswer⟩ | ⟨haccepted, htold, hreached⟩ := ofContext_steady_or_wrong v t hdistinct
  · have hsame : ∀ other, context.SameEntries other → ofContext v t other = ofContext v t context :=
      fun other hother => (hanswer other hother).trans (hanswer context hself).symm
    refine ⟨fun other hother => .inl (hsame other hother), fun _ h name hname => ?_, fun _ other hother => ?_⟩
    · rw [hsteady h] at hname
      exact absurd hname List.not_mem_nil
    · rw [hsame other hother]
      exact .refl _
  · obtain ⟨first, hfirst, hcontext⟩ := htold context hself
    refine ⟨fun other hother => ?_, fun h _ => ?_, fun h other hother => ?_⟩
    · obtain ⟨name, hname, hother⟩ := htold other hother
      exact .inr ⟨first, hfirst, name, hname, hcontext, hother⟩
    · -- every wrong name is told in some order, so it is shown as the one that is told in this order
      have hshown : ∀ name ∈ context.wrongRegions, Fault.shownName first = Fault.shownName name := by
        intro name hname
        obtain ⟨other, hother, htold⟩ := hreached name hname
        have hsame := h other hother
        rw [hcontext, htold] at hsame
        exact sameAnswer_wrongRegion_iff.1 hsame
      exact fun name hname name' hname' => (hshown name hname).symm.trans (hshown name' hname')
    · obtain ⟨name, hname, hother⟩ := htold other hother
      rw [hcontext, hother]
      exact sameAnswer_wrongRegion_iff.2 (h haccepted first hfirst name hname)

/-- A context that switches two regions on. -/
def twoRegions (first second : Text) : Context := ⟨[], [(first, true), (second, true)], []⟩

lemma distinct_twoRegions {first second : Text} (h : first ≠ second) : (twoRegions first second).Distinct :=
  ⟨List.nodup_nil, by simpa [twoRegions] using h, List.nodup_nil⟩

lemma sameEntries_twoRegions (first second : Text) :
    (twoRegions first second).SameEntries (twoRegions second first) :=
  ⟨.refl _, .swap _ _ _, .refl _⟩

/-- One wrong name is told in every order. -/
theorem sameAnswer_oneWrongRegion :
    (twoRegions "intro" "~").Distinct ∧ ∀ other, (twoRegions "intro" "~").SameEntries other →
      SameAnswer (ofContext shortTexts greeting (twoRegions "intro" "~")) (ofContext shortTexts greeting other) := by
  have hdistinct : (twoRegions "intro" "~").Distinct := distinct_twoRegions (by decide)
  have hwrong : (twoRegions "intro" "~").wrongRegions = ["~".toList] := by decide
  refine ⟨hdistinct, (ofContext_reordered shortTexts greeting hdistinct).2.2 fun _ name hname name' hname' => ?_⟩
  rw [hwrong, List.mem_singleton] at hname hname'
  rw [hname, hname']

/-- Of two wrong names the one is told, or the other. -/
theorem exists_reordered_not_sameAnswer :
    (twoRegions "!" "~").Distinct ∧ (twoRegions "!" "~").SameEntries (twoRegions "~" "!") ∧
      ¬ SameAnswer (ofContext shortTexts greeting (twoRegions "!" "~"))
        (ofContext shortTexts greeting (twoRegions "~" "!")) := by
  refine ⟨distinct_twoRegions (by decide), sameEntries_twoRegions _ _, ?_⟩
  have hfirst : ofContext shortTexts greeting (twoRegions "!" "~") = wrongRegion "!" := by rfl
  have hsecond : ofContext shortTexts greeting (twoRegions "~" "!") = wrongRegion "~" := by rfl
  rw [hfirst, hsecond, sameAnswer_wrongRegion_iff]
  decide

end CleanContext

end Stencil
