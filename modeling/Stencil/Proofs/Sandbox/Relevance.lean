import Stencil.Proofs.Sandbox.Recording
import Stencil.Proofs.Sandbox.Refinement
import Stencil.Proofs.Template.Grammar

/-!
# What a run sees of its context

A program without inclusions asks its context for the names that its paths begin with, and for its regions
(`Program.names`, `Program.regionNames`). Two contexts that agree on these (`AgreesOn`) are the same to it, in what is
put out as well as in how the run is cut off: nothing else that is bound can be told from the end of a run
(`evaluate_eq_of_agreesOn`).

The scopes of a run play no part in this: whatever loops stand around a place, the two runs have the same names on the
stack there. So each action of the one is the same function of the state as that of the other.
-/

namespace Stencil

open Json Template

namespace Template

/-! ## The names of a program -/

/-- The path of an operand, if it is one. -/
def Operand.path? : Operand → Option Path
  | .path segments => some segments
  | .text _ => none
  | .int _ => none
  | .bool _ => none

namespace Program

/-- The paths that a leaf or a heading asks for: of substitutions, of lists to loop over, and of operands. -/
def pathsOf : Leaf ⊕ Heading → List Path
  | .inl (.substitution path _) => [path]
  | .inl (.literal _) => []
  | .inl (.inclusion _) => []
  | .inr (.loop _ collection) => [collection]
  | .inr (.conditional condition) => condition.operands.filterMap Operand.path?
  | .inr (.region _) => []

/-- The region that a heading asks for. -/
def region? : Leaf ⊕ Heading → Option Text
  | .inr (.region name) => some name
  | .inr (.loop _ _) => none
  | .inr (.conditional _) => none
  | .inl _ => none

/-- The names that the paths of a program begin with. -/
def names (program : Program) : List Text := ((heads program).flatMap pathsOf).filterMap List.head?

/-- The names of the regions of a program. -/
def regionNames (program : Program) : List Text := (heads program).filterMap region?

end Program

end Template

namespace Sandbox

/-! ## Contexts that agree -/

/-- Whether two contexts agree on all that a program asks for: on what its names are bound to as variables and as lists,
and on whether its regions are switched off. -/
structure AgreesOn (program : Program) (context context' : CleanContext) : Prop where
  values : ∀ name ∈ program.names, context'.value? name = context.value? name
  lists : ∀ name ∈ program.names, context'.list? name = context.list? name
  regions : ∀ name ∈ program.regionNames, context'.regionEnabled name = context.regionEnabled name

/-- Whether two contexts agree on what a leaf or a heading asks for. -/
structure AgreesAt (context context' : CleanContext) (head : Leaf ⊕ Heading) : Prop where
  paths : ∀ path ∈ Program.pathsOf head, ∀ scopes, resolve? context' scopes path = resolve? context scopes path
  region : ∀ name, Program.region? head = some name → context'.regionEnabled name = context.regionEnabled name

variable {context context' : CleanContext}

/-- A path names the same under all scopes if its first name is bound to the same. -/
lemma resolve?_eq_of_head {path : Path} (h : ∀ name, path.head? = some name → context'.get? name = context.get? name)
    (scopes : Scopes) : resolve? context' scopes path = resolve? context scopes path := by
  cases path with
  | nil => rfl
  | cons name rest => rw [resolve?, resolve?, valueOf?, valueOf?, h name rfl]

/-- Contexts that agree on a program agree at each of its heads. -/
lemma AgreesOn.agreesAt {program : Program} (h : AgreesOn program context context') {head : Leaf ⊕ Heading}
    (hhead : head ∈ Program.heads program) : AgreesAt context context' head where
  paths path hpath := by
    refine resolve?_eq_of_head fun name hname => ?_
    have hmem : name ∈ program.names := List.mem_filterMap.2 ⟨path, List.mem_flatMap.2 ⟨head, hhead, hpath⟩, hname⟩
    rw [CleanContext.get?, CleanContext.get?, h.values name hmem, h.lists name hmem]
  region name hname := h.regions name (List.mem_filterMap.2 ⟨head, hhead, hname⟩)

/-- An operand has the same value if its path, if it is one, resolves alike. -/
lemma operandValue?_eq_of_paths {operand : Operand} (scopes : Scopes)
    (h : ∀ path, operand.path? = some path → resolve? context' scopes path = resolve? context scopes path) :
    operandValue? context' scopes operand = operandValue? context scopes operand := by
  cases operand with
  | path path => exact h path rfl
  | text | int | bool => rfl

/-- A condition holds in both contexts or in none if they agree on the paths in it. -/
lemma holds_eq_of_paths {condition : Condition} (scopes : Scopes)
    (h : ∀ path ∈ condition.operands.filterMap Operand.path?,
      resolve? context' scopes path = resolve? context scopes path) :
    holds context' scopes condition = holds context scopes condition := by
  have hoperand : ∀ operand ∈ condition.operands,
      operandValue? context' scopes operand = operandValue? context scopes operand := fun operand hoperand =>
    operandValue?_eq_of_paths scopes fun path hpath => h path (List.mem_filterMap.2 ⟨operand, hoperand, hpath⟩)
  induction condition with
  | truthy operand => rw [holds, holds, hoperand operand (List.mem_singleton_self _)]
  | equal left right =>
    rw [holds, holds, operandText, operandText, operandText, operandText, hoperand left List.mem_cons_self,
      hoperand right (List.mem_cons_of_mem _ (List.mem_singleton_self _))]
  | not condition ih => rw [holds, holds, ih h hoperand]

/-! ## Actions under contexts that agree -/

variable {s : Sandbox}

/-- Turns read nothing of the context by themselves. -/
lemma turnsFor_withContext (s : Sandbox) (context' : CleanContext) (name : Text) (shown number : Nat) (body : Action)
    (items : List Value) :
    ({ s with context := context' } : Sandbox).turnsFor name shown body number items =
      s.turnsFor name shown body number items := by
  induction items generalizing number with
  | nil => rfl
  | cons item rest ih =>
    rw [turnsFor, turnsFor, ih (number + 1)]
    rfl

/-- A substitution is the same in contexts that agree at it. -/
lemma substitute_eq {path : Path} {raw : Text}
    (h : AgreesAt s.context context' (.inl (.substitution path raw))) :
    ({ s with context := context' } : Sandbox).substitute path raw = s.substitute path raw := by
  funext run
  unfold substitute
  rw [h.paths path (List.mem_singleton_self _)]
  rfl

/-- A loop is the same in contexts that agree at it. -/
lemma loop_eq {name : Text} {collection : Path} (h : AgreesAt s.context context' (.inr (.loop name collection)))
    (body : Action) :
    ({ s with context := context' } : Sandbox).loop name collection body = s.loop name collection body := by
  funext run
  unfold loop
  rw [h.paths collection (List.mem_singleton_self _)]
  dsimp only
  simp only [turnsFor_withContext]

/-- A choice is the same in contexts that agree at it. -/
lemma choose_eq {condition : Condition} (h : AgreesAt s.context context' (.inr (.conditional condition)))
    (body otherwise : Action) :
    ({ s with context := context' } : Sandbox).choose condition body otherwise = s.choose condition body otherwise := by
  funext run
  unfold choose
  rw [holds_eq_of_paths run.scopes fun path hpath => h.paths path hpath run.scopes]
  rfl

/-- A region is the same in contexts that agree at it. -/
lemma region_eq {name : Text} (h : AgreesAt s.context context' (.inr (.region name))) (body : Action) :
    ({ s with context := context' } : Sandbox).region name body = s.region name body := by
  unfold region
  rw [h.region name rfl]
  rfl

/-- Without inclusions, nodes do the same under contexts that agree on what they ask for. -/
lemma nodes_eq {program : Program} (hno : ∀ head ∈ Program.heads program, Program.inclusionPath? head = none)
    (h : ∀ head ∈ Program.heads program, AgreesAt s.context context' head) (includeFile includeFile' : Text → Action) :
    ({ s with context := context' } : Sandbox).nodes includeFile' program = s.nodes includeFile program := by
  induction program using Program.rec_nodes with
  | nil => rfl
  | leaf leaf rest ih =>
    rw [Program.heads_leaf_cons, List.forall_mem_cons] at hno h
    rw [nodes, nodes, ih hno.2 h.2]
    cases leaf with
    | literal t => rfl
    | substitution path raw =>
      rw [Leaf.node, nodes.ofNode, nodes.ofNode, substitute_eq h.1]
      rfl
    | inclusion path => exact absurd hno.1 (by simp [Program.inclusionPath?])
  | block heading body rest ihbody ih =>
    rw [Program.heads_block_cons, List.forall_mem_cons, List.forall_mem_append] at hno h
    obtain ⟨-, hno, hnoRest⟩ := hno
    obtain ⟨hhead, hbody, hrest⟩ := h
    -- once the bodies are the same actions, the heading is all that looks at the context
    rw [nodes, nodes, ih hnoRest hrest]
    cases heading with
    | loop name collection =>
      rw [Heading.opening, Opening.node, nodes.ofNode, nodes.ofNode, ihbody hno hbody, loop_eq hhead]
      rfl
    | conditional condition =>
      rw [Heading.opening, Opening.node, nodes.ofNode, nodes.ofNode, ihbody hno hbody, choose_eq hhead]
      rfl
    | region name =>
      rw [Heading.opening, Opening.node, nodes.ofNode, nodes.ofNode, ihbody hno hbody, region_eq hhead]
      rfl
  | branches condition body otherwise rest ihbody ihotherwise ih =>
    rw [Program.heads_branches_cons, List.forall_mem_cons, List.forall_mem_append, List.forall_mem_append] at hno h
    obtain ⟨-, ⟨hno, hnoOther⟩, hnoRest⟩ := hno
    obtain ⟨hhead, ⟨hbody, hother⟩, hrest⟩ := h
    rw [nodes, nodes, ih hnoRest hrest, nodes.ofNode, nodes.ofNode, ihbody hno hbody, ihotherwise hnoOther hother,
      choose_eq hhead]
    rfl

/-! ## Runs under contexts that agree -/

/-- A program without inclusions ends in the same way under every context that agrees with its own on the names and
regions that it asks for: with the same output, or halted for the same reason. -/
theorem evaluate_eq_of_agreesOn {program : Program} (hno : program.inclusions = [])
    (h : AgreesOn program s.context context') (cache : InclusionCache) :
    ({ s with context := context' } : Sandbox).evaluate cache program = s.evaluate cache program := by
  have hleaves : ∀ head ∈ Program.heads program, Program.inclusionPath? head = none := by
    rw [Program.inclusions_eq_filterMap_heads] at hno
    exact List.filterMap_eq_nil_iff.1 hno
  have hexecute : ∀ room, ({ s with context := context' } : Sandbox).execute room program = s.execute room program := by
    intro room
    rw [execute_eq, execute_eq, nodes_eq hleaves (fun head hhead => h.agreesAt hhead) (s.inclusionWithin room)]
    rfl
  unfold evaluate
  rw [hexecute]

/-- A context with the list of the listing, and with names and regions that its program does not ask for. -/
def crowded : CleanContext :=
  ⟨[("secret", .string "<b>")], [("start", false)],
    [("items", .array [.string "<a>", .number (.int 2)]), ("others", .array [.null])]⟩

/-- What else is bound does not show in the listing. -/
theorem evaluate_crowded_listing :
    listingProgram.inclusions = [] ∧ AgreesOn listingProgram listing.context crowded ∧
      ({ listing with context := crowded } : Sandbox).evaluate (InclusionCache.new 1 1) listingProgram =
        listing.evaluate (InclusionCache.new 1 1) listingProgram := by
  have hnames : listingProgram.names = ["items", "loop", "x", "y"] := rfl
  have hagrees : AgreesOn listingProgram listing.context crowded := by
    constructor
    · rw [hnames]
      exact List.forall_iff_forall_mem.1 ⟨rfl, rfl, rfl, rfl⟩
    · rw [hnames]
      exact List.forall_iff_forall_mem.1 ⟨rfl, rfl, rfl, rfl⟩
    · decide
  exact ⟨rfl, hagrees, evaluate_eq_of_agreesOn rfl hagrees (InclusionCache.new 1 1)⟩

end Sandbox

end Stencil
