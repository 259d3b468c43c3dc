import Stencil.Context.Clean
import Stencil.Proofs.Inspection.Cleaning

/-!
# What a clean context binds

Names are bound to what the caller supplies for them, cleaned, and names that the template declares with a default and
the caller leaves out to the default, cleaned as well; nothing else is bound (`CleanContext.Binds`). Required names that
the caller leaves out are told as missing, in the order of their declarations.

A caller's entries are taken as they come, so that of several for one name the last one counts.

Main statement: what comes of a context (`CleanContext.ofContext_spec`).
-/

namespace Stencil

open Json Inspection

/-! ## What is there to be bound -/

namespace Context

/-- The value that a caller supplies for a variable. -/
def value? (context : Context) (name : Text) : Option Value := Table.get? context.values.reverse name

/-- The list that a caller supplies to loop over. -/
def list? (context : Context) (name : Text) : Option (List Value) := Table.get? context.lists.reverse name

/-- Whether a caller supplies something under a name. -/
def supplies (context : Context) (name : Text) : Bool := (context.value? name).isSome || (context.list? name).isSome

end Context

namespace Template

/-- The first default of a name that is declared. -/
def default? (declarations : List Declaration) (name : Text) : Option Value :=
  declarations.findSome? fun d => if d.name = name then d.default else none

/-- The value of a variable before it is cleaned: what the caller supplies or, if that is nothing at all, a default. -/
def source? (t : Template) (context : Context) (name : Text) : Option Value :=
  if context.supplies name then context.value? name else default? t.declarations name

/-- The required names that a caller leaves out, once for each declaration. -/
def omitted (t : Template) (context : Context) : List Text :=
  (t.declarations.filter fun d => d.required && !context.supplies d.name).map (·.name)

/-- Whether a value is accepted for a name, and of its declared type. -/
def Accepts (t : Template) (v : Validator) (name : Text) (value : Value) : Prop :=
  ∃ cleaned, v.validateValue name value = .ok cleaned ∧ t.checkType name cleaned = .ok ()

/-- Whether everything is accepted that a caller supplies. -/
structure AcceptsAll (t : Template) (v : Validator) (context : Context) : Prop where
  values : ∀ name value, context.value? name = some value → t.Accepts v name value
  lists : ∀ name items, context.list? name = some items → t.Accepts v name (.array items)
  regions : ∀ entry ∈ context.regions, isVariableName entry.1 = true

/-- Whether the defaults are accepted that take the place of what a caller leaves out. -/
def DefaultsAccepted (t : Template) (v : Validator) (context : Context) : Prop :=
  ∀ name default, context.supplies name = false → default? t.declarations name = some default →
    ∃ cleaned, v.validateValue name default = .ok cleaned

section

variable {d : Declaration} {rest : List Declaration} {name : Text} {default : Value}

lemma default?_cons_of_some (h : d.default = some default) : default? (d :: rest) d.name = some default := by
  rw [default?, List.findSome?_cons, if_pos rfl, h]

/-- A declaration of another name, or without default, leaves the defaults behind it. -/
lemma default?_cons_of_none (h : d.name = name → d.default = none) :
    default? (d :: rest) name = default? rest name := by
  have hnone : (if d.name = name then d.default else none) = none := by
    split
    · rename_i hname
      exact h hname
    · rfl
  rw [default?, List.findSome?_cons, hnone]
  rfl

end

end Template

namespace CleanContext

/-- What a clean context holds of a context that a caller supplies for a template. -/
structure Binds (v : Validator) (t : Template) (context : Context) (c : CleanContext) : Prop where
  /-- Every value that is bound is clean, under a name that a variable may have. -/
  clean : ∀ entry ∈ c.values ++ c.lists,
    Template.isVariableName entry.1 = true ∧ v.validateValue entry.1 entry.2 = .ok entry.2
  /-- Names of regions are names that a variable may have. -/
  regionNames : ∀ entry ∈ c.regions, Template.isVariableName entry.1 = true
  /-- Variables are bound to what there is for them, cleaned, and to nothing if there is nothing. -/
  values : ∀ name, Option.Rel (fun value cleaned => v.validateValue name value = .ok cleaned) (t.source? context name)
    (c.value? name)
  /-- Lists are bound to what is supplied for them, cleaned, and to nothing if nothing is. -/
  lists : ∀ name, Option.Rel (fun value cleaned => v.validateValue name value = .ok cleaned)
    ((context.list? name).map .array) (c.list? name)
  /-- Lists stay lists. -/
  arrays : ∀ entry ∈ c.lists, ∃ items, entry.2 = .array items
  /-- Regions are as the caller has switched them. -/
  regions : ∀ name, Table.get? c.regions name = Table.get? context.regions.reverse name
  /-- Required names are bound, to what the caller supplies. -/
  required : ∀ d ∈ t.declarations, d.required = true → context.supplies d.name = true ∧ (c.get? d.name).isSome = true

variable {v : Validator} {t : Template} {context : Context} {c c' : CleanContext}

/-! ## Entries -/

/-- An entry is cleaned if the validator accepts its value and the type of the result is the declared one. -/
lemma cleanEntry_eq_ok_iff {name : Text} {value cleaned : Value} :
    cleanEntry v t name value = .ok cleaned ↔
      v.validateValue name value = .ok cleaned ∧ t.checkType name cleaned = .ok () := by
  rw [cleanEntry, bind_eq_ok_iff]
  constructor
  · intro h
    obtain ⟨first, hfirst, hrest⟩ := h
    obtain ⟨_, htype, hcleaned⟩ := bind_eq_ok_iff.1 hrest
    obtain rfl := Except.ok.inj hcleaned
    exact ⟨hfirst, htype⟩
  · intro h
    exact ⟨cleaned, h.1, bind_eq_ok_iff.2 ⟨(), h.2, rfl⟩⟩

/-- What becomes of an entry: its name stays. -/
def CleansEntry (v : Validator) (t : Template) (entry cleaned : Text × Value) : Prop :=
  entry.1 = cleaned.1 ∧ cleanEntry v t entry.1 entry.2 = .ok cleaned.2

/-- Entries are cleaned if each of them is. -/
lemma cleanEntries_eq_ok_iff {entries table : List (Text × Value)} :
    cleanEntries v t entries = .ok table ↔ List.Forall₂ (CleansEntry v t) entries table := by
  induction entries generalizing table with
  | nil =>
    rw [cleanEntries, List.forall₂_nil_left_iff]
    exact ⟨fun h => (Except.ok.inj h).symm, fun h => congrArg _ h.symm⟩
  | cons entry rest ih =>
    obtain ⟨name, value⟩ := entry
    rw [cleanEntries, List.forall₂_cons_left_iff]
    constructor
    · intro h
      obtain ⟨cleaned, hcleaned, hrest⟩ := bind_eq_ok_iff.1 h
      obtain ⟨later, hlater, htable⟩ := bind_eq_ok_iff.1 hrest
      exact ⟨(name, cleaned), later, ⟨rfl, hcleaned⟩, ih.1 hlater, (Except.ok.inj htable).symm⟩
    · intro h
      obtain ⟨⟨_, cleaned⟩, later, ⟨rfl, hcleaned⟩, hlater, rfl⟩ := h
      exact bind_eq_ok_iff.2 ⟨cleaned, hcleaned, bind_eq_ok_iff.2 ⟨later, ih.2 hlater, rfl⟩⟩

/-- Entries that are accepted are cleaned. -/
lemma exists_cleanEntries {entries : List (Text × Value)} (h : ∀ entry ∈ entries, t.Accepts v entry.1 entry.2) :
    ∃ table, cleanEntries v t entries = .ok table := by
  induction entries with
  | nil => exact ⟨[], rfl⟩
  | cons entry rest ih =>
    obtain ⟨hfirst, hrest⟩ := List.forall_mem_cons.1 h
    obtain ⟨cleaned, hcleaned⟩ := hfirst
    obtain ⟨later, hlater⟩ := ih hrest
    exact ⟨(entry.1, cleaned) :: later,
      cleanEntries_eq_ok_iff.2 (.cons ⟨rfl, cleanEntry_eq_ok_iff.2 hcleaned⟩ (cleanEntries_eq_ok_iff.1 hlater))⟩

/-- Each name has what its entry has, cleaned. -/
lemma get?_of_forall₂ {entries table : List (Text × Value)} (h : List.Forall₂ (CleansEntry v t) entries table)
    (name : Text) :
    Option.Rel (fun value cleaned => cleanEntry v t name value = .ok cleaned) (Table.get? entries name)
      (Table.get? table name) := by
  induction h with
  | nil => exact .none
  | @cons entry cleaned rest later hentry _ ih =>
    obtain ⟨key, value⟩ := entry
    obtain ⟨key', value'⟩ := cleaned
    obtain ⟨hkey, hvalue⟩ := hentry
    obtain rfl : key = key' := hkey
    rw [Table.get?, Table.get?]
    by_cases hname : key = name
    · rw [if_pos hname, if_pos hname]
      exact .some (hname ▸ hvalue)
    · rw [if_neg hname, if_neg hname]
      exact ih

/-- Cleaned entries keep their names, and so their order. -/
lemma ascending_of_forall₂ {entries table : List (Text × Value)} (h : List.Forall₂ (CleansEntry v t) entries table)
    (hentries : Table.Ascending entries) : Table.Ascending table := by
  have hkeys : entries.map Prod.fst = table.map Prod.fst := by
    induction h with
    | nil => rfl
    | cons hentry _ ih => rw [List.map_cons, List.map_cons, hentry.1, ih (List.pairwise_cons.1 hentries).2]
  have hpairwise : (table.map Prod.fst).Pairwise (· < ·) := hkeys ▸ List.pairwise_map.2 hentries
  exact List.pairwise_map.1 hpairwise

/-! ## Defaults -/

/-- What defaults do to a context: a name that is bound stays as it is, and a name that is not is bound to its first
default, cleaned. -/
structure Fills (v : Validator) (declarations : List Template.Declaration) (c c' : CleanContext) : Prop where
  regions : c'.regions = c.regions
  lists : c'.lists = c.lists
  ascending : Table.Ascending c.values → Table.Ascending c'.values
  bound : ∀ name, (c.get? name).isSome = true → c'.value? name = c.value? name
  filled : ∀ name, c.get? name = none →
    Option.Rel (fun value cleaned => v.validateValue name value = .ok cleaned) (Template.default? declarations name)
      (c'.value? name)

lemma value?_eq_none {name : Text} (h : c.get? name = none) : c.value? name = none := by
  rw [get?, Option.or_eq_none_iff] at h
  exact h.1

lemma get?_insert (c : CleanContext) (name other : Text) (value : Value) :
    get? { c with values := c.values.insert name value } other = if name = other then some value else c.get? other := by
  unfold get? value? list?
  rw [Table.get?_insert]
  split
  · rfl
  · rfl

/-- To merge the defaults fills in those that are missing, and nothing else. -/
lemma fills_of_mergeDefaults {declarations : List Template.Declaration}
    (h : mergeDefaults v declarations c = .ok c') : Fills v declarations c c' := by
  -- by induction on the declarations; a default that is filled in is not replaced by a later one
  induction declarations generalizing c with
  | nil =>
    obtain rfl := Except.ok.inj h
    refine ⟨rfl, rfl, fun hascending => hascending, fun _ _ => rfl, fun name hname => ?_⟩
    rw [value?_eq_none hname]
    exact .none
  | cons d rest ih =>
    rw [mergeDefaults] at h
    split at h
    · -- the name is not bound yet, and this is its first default
      rename_i default hfree hdefault
      obtain ⟨cleaned, hcleaned, hrest⟩ := bind_eq_ok_iff.1 h
      have hfills := ih hrest
      refine ⟨hfills.regions, hfills.lists, fun hascending => ?_, fun name hname => ?_, fun name hname => ?_⟩
      · exact hfills.ascending (Table.ascending_insert hascending d.name cleaned)
      · have hother : d.name ≠ name := by
          rintro rfl
          rw [hfree] at hname
          exact absurd hname (by simp)
        have hkept := hfills.bound name (by rwa [get?_insert, if_neg hother])
        rw [hkept, value?, value?, Table.get?_insert, if_neg hother]
      · by_cases hsame : d.name = name
        · subst hsame
          have hkept := hfills.bound d.name (by rw [get?_insert, if_pos rfl]; rfl)
          rw [hkept, value?, Table.get?_insert, if_pos rfl, Template.default?_cons_of_some hdefault]
          exact .some hcleaned
        · rw [Template.default?_cons_of_none fun hname => absurd hname hsame]
          exact hfills.filled name (by rwa [get?_insert, if_neg hsame])
    · -- the name is bound, or there is no default here
      rename_i hother
      have hfills := ih h
      refine ⟨hfills.regions, hfills.lists, hfills.ascending, hfills.bound, fun name hname => ?_⟩
      rw [Template.default?_cons_of_none fun hsame => Option.eq_none_iff_forall_ne_some.2 fun default =>
        hother default (hsame ▸ hname)]
      exact hfills.filled name hname

/-- Defaults are filled in if those that count are accepted. -/
lemma exists_mergeDefaults {declarations : List Template.Declaration}
    (h : ∀ name default, c.get? name = none → Template.default? declarations name = some default →
      ∃ cleaned, v.validateValue name default = .ok cleaned) :
    ∃ c', mergeDefaults v declarations c = .ok c' := by
  induction declarations generalizing c with
  | nil => exact ⟨c, rfl⟩
  | cons d rest ih =>
    rw [mergeDefaults]
    split
    · rename_i default hfree hdefault
      obtain ⟨cleaned, hcleaned⟩ := h d.name default hfree (Template.default?_cons_of_some hdefault)
      obtain ⟨c', hrest⟩ : ∃ c', mergeDefaults v rest { c with values := c.values.insert d.name cleaned } = .ok c' := by
        refine ih fun name later hname hlater => ?_
        rw [get?_insert] at hname
        split at hname
        · exact absurd hname (by simp)
        · rename_i hother
          exact h name later hname ((Template.default?_cons_of_none fun hsame => absurd hsame hother).trans hlater)
      exact ⟨c', bind_eq_ok_iff.2 ⟨cleaned, hcleaned, hrest⟩⟩
    · rename_i hother
      refine ih fun name later hname hlater => h name later hname ?_
      rwa [Template.default?_cons_of_none fun hsame => Option.eq_none_iff_forall_ne_some.2 fun default =>
        hother default (hsame ▸ hname)]

/-! ## What a caller supplies -/

/-- The entries of a caller's lists. -/
def listEntries (context : Context) : List (Text × Value) := context.lists.map fun (name, items) => (name, .array items)

/-- The entry of a list is the array of its items. -/
lemma get?_listEntries (context : Context) (name : Text) :
    Table.get? (listEntries context).reverse name = (context.list? name).map .array := by
  unfold listEntries Context.list?
  rw [← List.map_reverse]
  induction context.lists.reverse with
  | nil => rfl
  | cons entry rest ih =>
    rw [List.map_cons, Table.get?, Table.get?]
    split
    · rfl
    · exact ih

/-- The cleaned entry of a name is the cleaned value of the entry given last under it. -/
lemma get?_of_cleanEntries {entries table : List (Text × Value)}
    (h : cleanEntries v t (Table.ofEntries entries) = .ok table) (name : Text) :
    Option.Rel (fun value cleaned => cleanEntry v t name value = .ok cleaned) (Table.get? entries.reverse name)
      (Table.get? table name) := by
  rw [← Table.get?_ofEntries]
  exact get?_of_forall₂ (cleanEntries_eq_ok_iff.1 h) name

lemma ascending_of_cleanEntries {entries table : List (Text × Value)}
    (h : cleanEntries v t (Table.ofEntries entries) = .ok table) : Table.Ascending table :=
  ascending_of_forall₂ (cleanEntries_eq_ok_iff.1 h) (Table.ascending_ofEntries entries)

/-- What a caller supplies, cleaned: nothing is bound yet to a default. -/
structure Supplied (v : Validator) (t : Template) (context : Context) (c : CleanContext) : Prop where
  values : cleanEntries v t (Table.ofEntries context.values) = .ok c.values
  lists : cleanEntries v t (Table.ofEntries (listEntries context)) = .ok c.lists
  regions : c.regions = Table.ofEntries context.regions

namespace Supplied

lemma value? (h : Supplied v t context c) (name : Text) :
    Option.Rel (fun value cleaned => cleanEntry v t name value = .ok cleaned) (context.value? name) (c.value? name) :=
  get?_of_cleanEntries h.values name

/-- The list of a name in the cleaned context is the cleaned one of the request. -/
lemma list? (h : Supplied v t context c) (name : Text) :
    Option.Rel (fun value cleaned => cleanEntry v t name value = .ok cleaned) ((context.list? name).map .array)
      (c.list? name) := by
  rw [← get?_listEntries]
  exact get?_of_cleanEntries h.lists name

/-- What is bound so far is what is supplied. -/
lemma isSome_get? (h : Supplied v t context c) (name : Text) : (c.get? name).isSome = context.supplies name := by
  have hlist := isSome_eq_of_rel (h.list? name)
  rw [Option.isSome_map] at hlist
  rw [get?, Option.isSome_or, ← isSome_eq_of_rel (h.value? name), ← hlist]
  rfl

lemma missing_eq (h : Supplied v t context c) : missing t c = t.omitted context := by
  unfold missing Template.omitted
  congr 1
  refine List.filter_congr fun d _ => ?_
  rw [← h.isSome_get?, Option.not_isSome]

end Supplied

/-- Section flags pass if each of their names is one of a variable. -/
lemma checkRegions_eq_ok_iff {regions : List (Text × Bool)} :
    checkRegions regions = .ok () ↔ ∀ entry ∈ regions, Template.isVariableName entry.1 = true := by
  unfold checkRegions
  split
  · rename_i name flag hfind
    have hbad := List.find?_some hfind
    have hmem := List.mem_of_find?_eq_some hfind
    refine ⟨fun h => absurd h (by simp), fun hall => ?_⟩
    have hgood := hall (name, flag) hmem
    simp [hgood] at hbad
  · rename_i hfind
    simpa using hfind

/-- The gates that a context passes on its way. -/
lemma ofContext_eq (v : Validator) (t : Template) (context : Context) :
    ofContext v t context = (do
      let values ← cleanEntries v t (Table.ofEntries context.values)
      let lists ← cleanEntries v t (Table.ofEntries (listEntries context))
      checkRegions context.regions
      checkRequired t ⟨values, Table.ofEntries context.regions, lists⟩
      mergeDefaults v t.declarations ⟨values, Table.ofEntries context.regions, lists⟩) := rfl

/-- A context that binds has been cleaned, omits nothing that is required, and is filled with the defaults. -/
lemma supplied_of_ofContext (h : ofContext v t context = .ok c) :
    ∃ supplied, Supplied v t context supplied ∧ (∀ entry ∈ context.regions, Template.isVariableName entry.1 = true) ∧
      t.omitted context = [] ∧ Fills v t.declarations supplied c := by
  rw [ofContext_eq] at h
  obtain ⟨values, hvalues, hafterValues⟩ := bind_eq_ok_iff.1 h
  obtain ⟨lists, hlists, hafterLists⟩ := bind_eq_ok_iff.1 hafterValues
  obtain ⟨_, hregions, hafterRegions⟩ := bind_eq_ok_iff.1 hafterLists
  obtain ⟨_, hrequired, hdefaults⟩ := bind_eq_ok_iff.1 hafterRegions
  have hsupplied : Supplied v t context ⟨values, Table.ofEntries context.regions, lists⟩ := ⟨hvalues, hlists, rfl⟩
  refine ⟨_, hsupplied, checkRegions_eq_ok_iff.1 hregions, ?_, fills_of_mergeDefaults hdefaults⟩
  rw [← hsupplied.missing_eq]
  unfold checkRequired at hrequired
  split at hrequired
  · rename_i hnone
    exact List.isEmpty_iff.1 hnone
  · exact absurd hrequired (by simp)

/-! ## What is bound in the end -/

/-- Whatever is bound to something cleaned is clean itself. -/
lemma clean_of_rel {name : Text} {source : Option Value} {cleaned : Value}
    (h : Option.Rel (fun value cleaned => v.validateValue name value = .ok cleaned) source (some cleaned)) :
    Template.isVariableName name = true ∧ v.validateValue name cleaned = .ok cleaned := by
  obtain ⟨value, -, hclean⟩ := exists_of_rel_some h
  exact ⟨(Validator.validateValue_eq_ok_iff.1 hclean).1, Validator.validateValue_validateValue hclean⟩

lemma get?_eq_of_fills {supplied : CleanContext} {name : Text} (h : Fills v t.declarations supplied c)
    (hname : (supplied.get? name).isSome = true) : c.get? name = supplied.get? name := by
  rw [get?, get?, h.bound name hname, list?, list?, h.lists]

/-- A context that is made binds what the request and the declarations say. -/
lemma binds_of_ofContext (h : ofContext v t context = .ok c) : Binds v t context c := by
  obtain ⟨supplied, hsupplied, hregions, homitted, hfills⟩ := supplied_of_ofContext h
  have hregionsEq : c.regions = Table.ofEntries context.regions := hfills.regions.trans hsupplied.regions
  -- a name has its value from the request or, if it is missing there, from a default: the two cases of its source
  have hvalues : ∀ name, Option.Rel (fun value cleaned => v.validateValue name value = .ok cleaned)
      (t.source? context name) (c.value? name) := by
    intro name
    have hisSome := hsupplied.isSome_get? name
    unfold Template.source?
    split
    · rename_i hname
      rw [hfills.bound name (hisSome.trans hname)]
      exact rel_imp (hsupplied.value? name) fun _ _ hentry => (cleanEntry_eq_ok_iff.1 hentry).1
    · rename_i hname
      rw [← hisSome, Bool.not_eq_true, Option.isSome_eq_false_iff, Option.isNone_iff_eq_none] at hname
      exact hfills.filled name hname
  have hlists : ∀ name, Option.Rel (fun value cleaned => v.validateValue name value = .ok cleaned)
      ((context.list? name).map .array) (c.list? name) := by
    intro name
    rw [list?, hfills.lists]
    exact rel_imp (hsupplied.list? name) fun _ _ hentry => (cleanEntry_eq_ok_iff.1 hentry).1
  have hlist : ∀ entry ∈ c.lists, c.list? entry.1 = some entry.2 := fun entry hentry =>
    (Table.get?_eq_some_iff_mem (hfills.lists ▸ ascending_of_cleanEntries hsupplied.lists)).2 hentry
  constructor
  case clean =>
    intro entry hentry
    rcases List.mem_append.1 hentry with hentry | hentry
    · have hascending := hfills.ascending (ascending_of_cleanEntries hsupplied.values)
      have hget : c.value? entry.1 = some entry.2 := (Table.get?_eq_some_iff_mem hascending).2 hentry
      exact clean_of_rel (hget ▸ hvalues entry.1)
    · exact clean_of_rel (hlist entry hentry ▸ hlists entry.1)
  case regionNames =>
    intro entry hentry
    rw [hregionsEq] at hentry
    exact hregions entry (Table.mem_of_mem_ofEntries hentry)
  case values => exact hvalues
  case lists => exact hlists
  case arrays =>
    intro entry hentry
    obtain ⟨value, hvalue, hclean⟩ := exists_of_rel_some (hlist entry hentry ▸ hlists entry.1)
    obtain ⟨items, -, rfl⟩ := Option.map_eq_some_iff.1 hvalue
    obtain ⟨-, -, harray⟩ := Validator.validateValue_eq_ok_iff.1 hclean
    obtain ⟨parts, -, hparts⟩ := Validator.clean_array_eq_ok_iff.1 harray
    exact ⟨parts, hparts.symm⟩
  case regions =>
    intro name
    rw [hregionsEq, Table.get?_ofEntries]
  case required =>
    intro d hd hrequired
    -- a required variable that was not supplied would have been among the omitted ones
    have hsupplies : context.supplies d.name = true := by
      by_contra hnot
      rw [Bool.not_eq_true] at hnot
      have hmem : d.name ∈ t.omitted context := by
        refine List.mem_map.2 ⟨d, List.mem_filter.2 ⟨hd, ?_⟩, rfl⟩
        rw [hrequired, hnot]
        rfl
      rw [homitted] at hmem
      exact absurd hmem List.not_mem_nil
    have hbound : (supplied.get? d.name).isSome = true := (hsupplied.isSome_get? d.name).trans hsupplies
    exact ⟨hsupplies, by rwa [get?_eq_of_fills hfills hbound]⟩

/-- Entries are cleaned if those that count are accepted. -/
lemma exists_cleanEntries_ofEntries {entries : List (Text × Value)}
    (h : ∀ name value, Table.get? entries.reverse name = some value → t.Accepts v name value) :
    ∃ table, cleanEntries v t (Table.ofEntries entries) = .ok table := by
  refine exists_cleanEntries fun entry hentry => h entry.1 entry.2 ?_
  rw [← Table.get?_ofEntries]
  exact (Table.get?_eq_some_iff_mem (Table.ascending_ofEntries entries)).2 hentry

/-- If everything is accepted that is supplied, it is left to the required names and to the defaults. -/
lemma ofContext_of_acceptsAll (h : t.AcceptsAll v context) :
    ∃ supplied, Supplied v t context supplied ∧
      ofContext v t context = (do
        checkRequired t supplied
        mergeDefaults v t.declarations supplied) := by
  obtain ⟨values, hcleanValues⟩ := exists_cleanEntries_ofEntries h.values
  obtain ⟨lists, hcleanLists⟩ : ∃ lists, cleanEntries v t (Table.ofEntries (listEntries context)) = .ok lists := by
    refine exists_cleanEntries_ofEntries fun name value hvalue => ?_
    rw [get?_listEntries] at hvalue
    obtain ⟨items, hitems, rfl⟩ := Option.map_eq_some_iff.1 hvalue
    exact h.lists name items hitems
  refine ⟨⟨values, Table.ofEntries context.regions, lists⟩, ⟨hcleanValues, hcleanLists, rfl⟩, ?_⟩
  rw [ofContext_eq, hcleanValues, hcleanLists, checkRegions_eq_ok_iff.2 h.regions]
  rfl

/-- If all entries are accepted but variables are omitted, the error names these, in the order of their declarations. -/
lemma ofContext_of_omitted (h : t.AcceptsAll v context) (homitted : t.omitted context ≠ []) :
    ofContext v t context = .error (.missingVariables (t.omitted context)) := by
  obtain ⟨supplied, hsupplied, hcontext⟩ := ofContext_of_acceptsAll h
  have hrefused : checkRequired t supplied = .error (.missingVariables (t.omitted context)) := by
    rw [checkRequired, hsupplied.missing_eq, if_neg (by simpa using homitted)]
  rw [hcontext, hrefused]
  rfl

/-- A context is made if all entries and the needed defaults are accepted and nothing is omitted. -/
lemma exists_ofContext (h : t.AcceptsAll v context) (homitted : t.omitted context = [])
    (hdefaults : t.DefaultsAccepted v context) : ∃ c, ofContext v t context = .ok c := by
  obtain ⟨supplied, hsupplied, hcontext⟩ := ofContext_of_acceptsAll h
  have hpassed : checkRequired t supplied = .ok () := by
    rw [checkRequired, hsupplied.missing_eq, homitted]
    rfl
  obtain ⟨c, hc⟩ := exists_mergeDefaults (c := supplied) fun name default hname hdefault => by
    refine hdefaults name default ?_ hdefault
    rw [← hsupplied.isSome_get?, hname]
    rfl
  exact ⟨c, by rw [hcontext, hpassed]; exact hc⟩

/-- A context is made only if all entries are accepted. -/
lemma acceptsAll_of_ofContext (h : ofContext v t context = .ok c) : t.AcceptsAll v context := by
  obtain ⟨supplied, hsupplied, hregions, -, -⟩ := supplied_of_ofContext h
  refine ⟨fun name value hvalue => ?_, fun name items hitems => ?_, hregions⟩
  · obtain ⟨cleaned, -, hentry⟩ := exists_of_some_rel (hvalue ▸ hsupplied.value? name)
    exact ⟨cleaned, cleanEntry_eq_ok_iff.1 hentry⟩
  · have hlist := hsupplied.list? name
    rw [hitems] at hlist
    obtain ⟨cleaned, -, hentry⟩ := exists_of_some_rel hlist
    exact ⟨cleaned, cleanEntry_eq_ok_iff.1 hentry⟩

lemma defaultsAccepted_of_ofContext (h : ofContext v t context = .ok c) : t.DefaultsAccepted v context := by
  intro name default hname hdefault
  have hvalue := (binds_of_ofContext h).values name
  rw [Template.source?, hname, if_neg Bool.false_ne_true, hdefault] at hvalue
  obtain ⟨cleaned, -, hclean⟩ := exists_of_some_rel hvalue
  exact ⟨cleaned, hclean⟩

/-- A context that is let through binds just what it should. It is let through if everything is accepted that is
supplied, no required name is left out, and the defaults are accepted that are needed; if all that fails is that
required names are left out, these are told. -/
theorem ofContext_spec (v : Validator) (t : Template) (context : Context) :
    (∀ c, ofContext v t context = .ok c → Binds v t context c) ∧
    ((∃ c, ofContext v t context = .ok c) ↔
      t.AcceptsAll v context ∧ t.omitted context = [] ∧ t.DefaultsAccepted v context) ∧
    (t.AcceptsAll v context → t.omitted context ≠ [] →
      ofContext v t context = .error (.missingVariables (t.omitted context))) := by
  refine ⟨fun c h => binds_of_ofContext h, ⟨fun h => ?_, fun h => ?_⟩, ofContext_of_omitted⟩
  · obtain ⟨c, hc⟩ := h
    obtain ⟨-, -, -, homitted, -⟩ := supplied_of_ofContext hc
    exact ⟨acceptsAll_of_ofContext hc, homitted, defaultsAccepted_of_ofContext hc⟩
  · exact exists_ofContext h.1 h.2.1 h.2.2

/-- A validator of short texts. -/
def shortTexts : Validator := ⟨⟨100, 100, .warning, false⟩, .none⟩

/-- A template that needs a name, and declares two defaults for a title. -/
def greeting : Template :=
  { Template.new "t" "x" with
    declarations := [.mandatory "name", .optional "title" (some (.string "Dr.")), .optional "title" (some .null)] }

/-- A context that supplies a name. -/
def named : Context := ⟨[("name".toList, .string "Ann")], [], []⟩

/-- With a name the title is bound to a default, and without it the name is told as missing. -/
theorem ofContext_greeting :
    (∃ c, ofContext shortTexts greeting named = .ok c ∧ (c.value? "title").isSome = true) ∧
      ofContext shortTexts greeting .empty = .error (.missingVariables ["name".toList]) := by
  obtain ⟨hbinds, -, -⟩ := ofContext_spec shortTexts greeting named
  obtain ⟨-, -, hmissing⟩ := ofContext_spec shortTexts greeting .empty
  constructor
  · have hok : (ofContext shortTexts greeting named).isOk = true := by decide +kernel
    cases hcontext : ofContext shortTexts greeting named with
    | error fault => simp [hcontext, Except.isOk, Except.toBool] at hok
    | ok c => exact ⟨c, rfl, (isSome_eq_of_rel ((hbinds c hcontext).values "title")).symm⟩
  · have homitted : greeting.omitted .empty = ["name".toList] := by decide +kernel
    rw [← homitted]
    refine hmissing ⟨fun _ _ h => ?_, fun _ _ h => ?_, fun _ h => ?_⟩ (by simp [homitted])
    · exact absurd h (by simp [Context.value?, Context.empty])
    · exact absurd h (by simp [Context.list?, Context.empty])
    · exact absurd h (by simp [Context.empty])

end CleanContext

end Stencil
