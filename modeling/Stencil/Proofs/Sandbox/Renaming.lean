import Stencil.Proofs.Sandbox.Relevance
import Stencil.Proofs.Sandbox.Rules

/-!
# The names of loop variables

A loop may call its variable by any other name that its body does not use: the paths of the body that mean the variable
are then written with the new name (`Program.rename`). Nothing can be told from the end of a run, wherever in a program
the loop stands (`evaluate_fill_rename`).

Inside of the loop the two runs have different names on the stack, under which the same values are found
(`Mirrors`). An action of the one is then the action of the other, but for these names (`AlikeUnder`), and behind the
loop the names are gone.
-/

namespace Stencil

open Json Template

namespace Template

/-! ## Renaming -/

/-- A name in which one name is replaced by another. -/
def renamed (old new name : Text) : Text := if name = old then new else name

lemma renamed_old (old new : Text) : renamed old new old = new := if_pos rfl

lemma renamed_of_ne {old new name : Text} (h : name ≠ old) : renamed old new name = name := if_neg h

lemma renamed_self (old name : Text) : renamed old old name = name := by
  unfold renamed
  split
  · rename_i h
    exact h.symm
  · rfl

/-- A path with another name in front, if its first name is the one to be replaced. -/
def Path.rename (old new : Text) : Path → Path
  | [] => []
  | name :: rest => renamed old new name :: rest

/-- An operand with its path renamed. -/
def Operand.rename (old new : Text) : Operand → Operand
  | .path segments => .path (Path.rename old new segments)
  | .text t => .text t
  | .int i => .int i
  | .bool b => .bool b

/-- A condition with its paths renamed. -/
def Condition.rename (old new : Text) : Condition → Condition
  | .truthy operand => .truthy (operand.rename old new)
  | .equal left right => .equal (left.rename old new) (right.rename old new)
  | .not condition => .not (condition.rename old new)

namespace Program

/-- A program in which every path that begins with one name begins with another, but for the bodies of loops over a
variable of the old name: there the name means that variable. The sources of substitutions are kept. -/
def rename (old new : Text) : Program → Program
  | [] => []
  | node :: rest => ofNode node :: rename old new rest
where
  /-- A node with its paths and those of its bodies renamed. -/
  ofNode : Node → Node
    | .literal t => .literal t
    | .substitution path raw => .substitution (path.rename old new) raw
    | .loop name collection body =>
      .loop name (collection.rename old new) (if name = old then body else rename old new body)
    | .conditional condition body otherwise =>
      .conditional (condition.rename old new) (rename old new body) (rename old new otherwise)
    | .region name body => .region name (rename old new body)
    | .inclusion path => .inclusion path

/-- The variable of a heading that is one of a loop. -/
def loopVariable? : Leaf ⊕ Heading → Option Text
  | .inr (.loop name _) => some name
  | .inr (.conditional _) => none
  | .inr (.region _) => none
  | .inl _ => none

/-- The variables of all loops in a program. -/
def loopVariables (program : Program) : List Text := (heads program).filterMap loopVariable?

end Program

lemma Path.rename_self (old : Text) (path : Path) : path.rename old old = path := by
  cases path with
  | nil => rfl
  | cons name rest => rw [Path.rename, renamed_self]

lemma Operand.rename_self (old : Text) (operand : Operand) : operand.rename old old = operand := by
  cases operand with
  | path path => rw [Operand.rename, Path.rename_self]
  | text | int | bool => rfl

lemma Condition.rename_self (old : Text) (condition : Condition) : condition.rename old old = condition := by
  induction condition with
  | truthy operand => rw [Condition.rename, Operand.rename_self]
  | equal left right => rw [Condition.rename, Operand.rename_self, Operand.rename_self]
  | not condition ih => rw [Condition.rename, ih]

/-- A name replaced by itself leaves a program as it is. -/
lemma Program.rename_self (old : Text) (program : Program) : program.rename old old = program := by
  induction program using Program.rec_nodes with
  | nil => rfl
  | leaf leaf rest ih =>
    rw [rename, ih]
    cases leaf with
    | literal | inclusion => rfl
    | substitution path raw => rw [Leaf.node, rename.ofNode, Path.rename_self]
  | block heading body rest ihbody ih =>
    rw [rename, ih]
    cases heading with
    | loop name collection =>
      rw [Heading.opening, Opening.node, rename.ofNode, Path.rename_self, ihbody, ite_self]
    | conditional condition =>
      rw [Heading.opening, Opening.node, rename.ofNode, Condition.rename_self, ihbody]
      rfl
    | region name => rw [Heading.opening, Opening.node, rename.ofNode, ihbody]
  | branches condition body otherwise rest ihbody ihotherwise ih =>
    rw [rename, ih, rename.ofNode, Condition.rename_self, ihbody, ihotherwise]

/-! ## Programs around a node -/

/-- A program with a gap for one node, on its outermost level or in one of its bodies. -/
inductive Surroundings where
  | level (front behind : Program)
  | loop (front : Program) (name : Text) (collection : Path) (inside : Surroundings) (behind : Program)
  | branch (front : Program) (condition : Condition) (inside : Surroundings) (other behind : Program)
  | alternative (front : Program) (condition : Condition) (other : Program) (inside : Surroundings) (behind : Program)
  | region (front : Program) (name : Text) (inside : Surroundings) (behind : Program)

/-- The program with a node in the gap. -/
def Surroundings.fill (node : Node) : Surroundings → Program
  | .level front behind => front ++ node :: behind
  | .loop front name collection inside behind => front ++ .loop name collection (fill node inside) :: behind
  | .branch front condition inside other behind => front ++ .conditional condition (fill node inside) other :: behind
  | .alternative front condition other inside behind =>
    front ++ .conditional condition other (fill node inside) :: behind
  | .region front name inside behind => front ++ .region name (fill node inside) :: behind

end Template

namespace Sandbox

/-! ## Values under renamed names -/

/-- Whether every name but a fresh one stands for the same value on two stacks, once it is renamed for the second. -/
def Mirrors (context : CleanContext) (old new fresh : Text) (scopes scopes' : Scopes) : Prop :=
  ∀ name ≠ fresh, valueOf? context scopes' (renamed old new name) = valueOf? context scopes name

variable {context : CleanContext} {old new fresh : Text} {scopes scopes' : Scopes}

/-- One more name bound on both stacks, which is none of those that are renamed. -/
lemma Mirrors.cons (h : Mirrors context old new fresh scopes scopes') {name : Text} (hold : name ≠ old)
    (hnew : name ≠ new) (value : Value) :
    Mirrors context old new fresh ((name, value) :: scopes) ((name, value) :: scopes') := by
  intro n hn
  rw [valueOf?_cons, valueOf?_cons, h n hn]
  by_cases hsame : n = old
  · rw [hsame, renamed_old, if_neg hnew, if_neg hold]
  · rw [renamed_of_ne hsame]

/-- The name that is renamed bound anew on both stacks: from here on it is called the same. -/
lemma Mirrors.shadow (h : Mirrors context old new fresh scopes scopes') (value : Value) :
    Mirrors context old old fresh ((old, value) :: scopes) ((old, value) :: scopes') := by
  intro n hn
  rw [renamed_self, valueOf?_cons, valueOf?_cons]
  split
  · rfl
  · rename_i hne
    have hother := h n hn
    rwa [renamed_of_ne (Ne.symm hne)] at hother

/-- A path that does not start with the fresh name resolves as before when it is renamed. -/
lemma Mirrors.resolve?_eq (h : Mirrors context old new fresh scopes scopes') {path : Path}
    (hpath : path.head? ≠ some fresh) :
    resolve? context scopes' (path.rename old new) = resolve? context scopes path := by
  cases path with
  | nil => rfl
  | cons name rest =>
    have hname : name ≠ fresh := fun heq => hpath (congrArg some heq)
    rw [Path.rename, resolve?, resolve?, h name hname]

/-- An operand that does not speak of the fresh name has the same value when it is renamed. -/
lemma Mirrors.operandValue?_eq (h : Mirrors context old new fresh scopes scopes') {operand : Operand}
    (hoperand : ∀ path, operand.path? = some path → path.head? ≠ some fresh) :
    operandValue? context scopes' (operand.rename old new) = operandValue? context scopes operand := by
  cases operand with
  | path path => exact h.resolve?_eq (hoperand path rfl)
  | text | int | bool => rfl

/-- A condition that does not speak of the fresh name is decided alike when it is renamed. -/
lemma Mirrors.holds_eq (h : Mirrors context old new fresh scopes scopes') {condition : Condition}
    (hpaths : ∀ path ∈ condition.operands.filterMap Operand.path?, path.head? ≠ some fresh) :
    holds context scopes' (condition.rename old new) = holds context scopes condition := by
  have hoperand : ∀ operand ∈ condition.operands,
      operandValue? context scopes' (operand.rename old new) = operandValue? context scopes operand :=
    fun operand hmem => h.operandValue?_eq fun path hpath => hpaths path (List.mem_filterMap.2 ⟨operand, hmem, hpath⟩)
  induction condition with
  | truthy operand => rw [Condition.rename, holds, holds, hoperand operand (List.mem_singleton_self _)]
  | equal left right =>
    rw [Condition.rename, holds, holds, operandText, operandText, operandText, operandText,
      hoperand left List.mem_cons_self, hoperand right (List.mem_cons_of_mem _ (List.mem_singleton_self _))]
  | not condition ih => rw [Condition.rename, holds, holds, ih hpaths hoperand]

/-! ## Actions under other names -/

/-- A state with other names on the stack. -/
def Run.under (scopes : Scopes) (run : Run) : Run := { run with scopes }

/-- Whether two actions, begun in states that have the one and the other names on the stack and are the same for the
rest, end in the same way in such states. -/
def AlikeUnder (scopes scopes' : Scopes) (action action' : Action) : Prop :=
  ∀ run, run.scopes = scopes →
    action' (run.under scopes') = Ending.leave (Run.under scopes') (action run) ∧
      (Ending.state (action run)).scopes = scopes

variable {s : Sandbox} {action action' next next' body body' : Action}

/-- A step does the same under all scopes. -/
lemma alikeUnder_step (s : Sandbox) (step : Step) (scopes scopes' : Scopes) :
    AlikeUnder scopes scopes' (step.action s) (step.action s) := by
  intro run hrun
  refine ⟨?_, (Step.kept s step run).scopes.trans hrun⟩
  cases step with
  | skip => rfl
  | look =>
    show s.look (run.under scopes') = Ending.leave (Run.under scopes') (s.look run)
    unfold look
    rw [apply_ite (Ending.leave (Run.under scopes'))]
    rfl
  | emit t =>
    show s.emit t (run.under scopes') = Ending.leave (Run.under scopes') (s.emit t run)
    unfold emit
    rw [apply_ite (Ending.leave (Run.under scopes'))]
    rfl
  | countTurn =>
    show s.countTurn (run.under scopes') = Ending.leave (Run.under scopes') (s.countTurn run)
    unfold countTurn
    rw [apply_ite (Ending.leave (Run.under scopes'))]
    rfl

/-- Two actions are alike if each of them is. -/
lemma AlikeUnder.bind (h : AlikeUnder scopes scopes' action action') (hnext : AlikeUnder scopes scopes' next next') :
    AlikeUnder scopes scopes' (do action; next) (do action'; next') := by
  intro run hrun
  obtain ⟨haction, hscopes⟩ := h run hrun
  cases hends : action run with
  | ok u between =>
    rw [hends] at haction hscopes
    rw [Recorded.bind_of_ok next hends, Recorded.bind_of_ok next' haction]
    exact hnext between hscopes
  | error halt after =>
    rw [hends] at haction hscopes
    rw [Recorded.bind_of_error next hends, Recorded.bind_of_error next' haction]
    exact ⟨rfl, hscopes⟩

/-- What is taken back behind two actions may be anything that leaves the names alone. -/
lemma AlikeUnder.leaving {run : Run} (h : AlikeUnder scopes scopes' action action') (hrun : run.scopes = scopes)
    {leave leave' : Run → Run} {outer outer' : Scopes}
    (hleave : ∀ inside : Run, inside.scopes = scopes →
      leave' (inside.under scopes') = (leave inside).under outer' ∧ (leave inside).scopes = outer) :
    Sandbox.leaving leave' action' (run.under scopes') =
        Ending.leave (Run.under outer') (Sandbox.leaving leave action run) ∧
      (Ending.state (Sandbox.leaving leave action run)).scopes = outer := by
  obtain ⟨haction, hscopes⟩ := h run hrun
  rw [leaving_eq_leave, leaving_eq_leave, haction, state_leave]
  obtain ⟨hsame, houter⟩ := hleave _ hscopes
  refine ⟨?_, houter⟩
  cases hends : action run with
  | ok u inside =>
    rw [hends] at hsame
    exact congrArg (EStateM.Result.ok ()) hsame
  | error halt inside =>
    rw [hends] at hsame
    exact congrArg (EStateM.Result.error halt) hsame

/-- Actions stay alike one level deeper. -/
lemma AlikeUnder.nested (h : AlikeUnder scopes scopes' body body') :
    AlikeUnder scopes scopes' (s.nested body) (s.nested body') := by
  intro run hrun
  unfold Sandbox.nested
  by_cases hdeep : s.budget.maxRecursionDepth ≤ run.depth
  · rw [if_pos hdeep, Run.under, if_pos hdeep]
    exact ⟨rfl, hrun⟩
  · rw [if_neg hdeep, Run.under, if_neg hdeep]
    have hinside : ({ run with depth := run.depth + 1 } : Run).scopes = scopes := hrun
    exact h.leaving hinside fun inside hscopes => ⟨rfl, hscopes⟩

/-- Names bound around two actions are gone behind them. -/
lemma AlikeUnder.bound {bindings bindings' : Scopes}
    (h : AlikeUnder (bindings ++ scopes) (bindings' ++ scopes') action action') :
    AlikeUnder scopes scopes' (bound bindings action) (bound bindings' action') := by
  intro run hrun
  unfold Sandbox.bound
  have hbound : ({ run with scopes := bindings ++ run.scopes } : Run).scopes = bindings ++ scopes := by rw [hrun]
  refine h.leaving hbound fun inside hscopes => ?_
  dsimp only [Run.under]
  rw [hscopes, hrun, List.length_append, List.length_append, Nat.add_sub_cancel, Nat.add_sub_cancel, List.drop_left,
    List.drop_left]
  exact ⟨rfl, rfl⟩

/-! ## Nodes under other names -/

/-- Turns are alike if their bodies are alike under the bindings of every turn. -/
lemma alikeUnder_turnsFor {name name' : Text} {shown : Nat}
    (h : ∀ number item, AlikeUnder ([(turnName, turnInfo number shown), (name, item)] ++ scopes)
      ([(turnName, turnInfo number shown), (name', item)] ++ scopes') body body') (number : Nat) (items : List Value) :
    AlikeUnder scopes scopes' (s.turnsFor name shown body number items)
      (s.turnsFor name' shown body' number items) := by
  induction items generalizing number with
  | nil => exact alikeUnder_step s .skip scopes scopes'
  | cons item rest ih =>
    exact (alikeUnder_step s .look scopes scopes').bind ((alikeUnder_step s .countTurn scopes scopes').bind
      ((h number item).nested.bound.bind (ih (number + 1))))

/-- Loops are alike if their collections are equal and their bodies are alike in every turn. -/
lemma alikeUnder_loop {name name' : Text} {collection collection' : Path}
    (hcollection : resolve? s.context scopes' collection' = resolve? s.context scopes collection)
    (h : ∀ number shown item, AlikeUnder ([(turnName, turnInfo number shown), (name, item)] ++ scopes)
      ([(turnName, turnInfo number shown), (name', item)] ++ scopes') body body') :
    AlikeUnder scopes scopes' (s.loop name collection body) (s.loop name' collection' body') := by
  intro run hrun
  unfold loop
  rw [hrun]
  dsimp only [Run.under]
  rw [hcollection]
  split
  · exact alikeUnder_turnsFor (fun number item => h number _ item) 1 _ run hrun
  · exact ⟨rfl, hrun⟩

/-- Substitutions are alike if their paths resolve alike. -/
lemma alikeUnder_substitute {path path' : Path}
    (hpath : resolve? s.context scopes' path' = resolve? s.context scopes path) (raw : Text) :
    AlikeUnder scopes scopes' (s.substitute path raw) (s.substitute path' raw) := by
  intro run hrun
  unfold substitute
  rw [hrun]
  dsimp only [Run.under]
  rw [hpath]
  split
  · exact alikeUnder_step s (.emit _) scopes scopes' run hrun
  · exact alikeUnder_step s (.emit raw) scopes scopes' run hrun

/-- Choices are alike if their conditions are decided alike and their bodies are alike. -/
lemma alikeUnder_choose {condition condition' : Condition}
    (hcondition : holds s.context scopes' condition' = holds s.context scopes condition)
    (h : AlikeUnder scopes scopes' body body') (h' : AlikeUnder scopes scopes' action action') :
    AlikeUnder scopes scopes' (s.choose condition body action) (s.choose condition' body' action') := by
  intro run hrun
  unfold choose
  rw [hrun]
  show s.nested (if holds s.context scopes' condition' then body' else action') (run.under scopes') = _ ∧ _
  rw [hcondition]
  split
  · exact h.nested run hrun
  · exact h'.nested run hrun

/-- Regions are alike if their bodies are. -/
lemma alikeUnder_region (name : Text) (h : AlikeUnder scopes scopes' body body') :
    AlikeUnder scopes scopes' (s.region name body) (s.region name body') := by
  unfold region
  split
  · exact h.nested
  · exact alikeUnder_step s .skip scopes scopes'

/-- A leaf or a heading that leaves a name alone: it is no inclusion, no path in it begins with the name, and it is no
loop over a variable of the name. -/
structure Spares (name : Text) (head : Leaf ⊕ Heading) : Prop where
  inclusion : Program.inclusionPath? head = none
  paths : ∀ path ∈ Program.pathsOf head, path.head? ≠ some name
  loop : Program.loopVariable? head ≠ some name

/-- The names in a turn of a loop. A loop over the name that is renamed is where it is renamed no more. -/
lemma Mirrors.turn (h : Mirrors context old new fresh scopes scopes') (hold : old ≠ turnName) (hnew : new ≠ turnName)
    {name : Text} (hname : name ≠ new ∨ name = old) (info item : Value) :
    Mirrors context old (if name = old then old else new) fresh ([(turnName, info), (name, item)] ++ scopes)
      ([(turnName, info), (name, item)] ++ scopes') := by
  by_cases hsame : name = old
  · rw [if_pos hsame, hsame]
    exact (h.shadow item).cons hold.symm hold.symm info
  · rw [if_neg hsame]
    exact (h.cons hsame (hname.resolve_right hsame) item).cons hold.symm hnew.symm info

/-- Bodies are alike if their nodes are. -/
lemma alikeUnder_body {includeFile includeFile' : Text → Action} {program program' : Program}
    (h : AlikeUnder scopes scopes' (s.nodes includeFile program) (s.nodes includeFile' program')) :
    AlikeUnder scopes scopes' (do s.look; s.nodes includeFile program) (do s.look; s.nodes includeFile' program') :=
  (alikeUnder_step s .look scopes scopes').bind h

/-- Under the other name the nodes of a program do the same, if they leave it alone before they are renamed. -/
lemma alikeUnder_nodes {program : Program} (hspares : ∀ head ∈ Program.heads program, Spares fresh head)
    (hold : old ≠ turnName) (hnew : new ≠ turnName) (hfresh : new = fresh ∨ new = old)
    (h : Mirrors s.context old new fresh scopes scopes') (includeFile includeFile' : Text → Action) :
    AlikeUnder scopes scopes' (s.nodes includeFile program) (s.nodes includeFile' (program.rename old new)) := by
  -- by induction on the program; a loop binds one more name, which the mirrored scopes take in
  induction program using Program.rec_nodes generalizing new scopes scopes' with
  | nil => exact alikeUnder_step s .skip scopes scopes'
  | leaf leaf rest ih =>
    rw [Program.heads_leaf_cons, List.forall_mem_cons] at hspares
    obtain ⟨hleaf, hrest⟩ := hspares
    refine (alikeUnder_step s .look scopes scopes').bind (AlikeUnder.bind ?_ (ih hrest hnew hfresh h))
    cases leaf with
    | literal t => exact alikeUnder_step s (.emit t) scopes scopes'
    | substitution path raw =>
      exact alikeUnder_substitute (h.resolve?_eq (hleaf.paths path (List.mem_singleton_self _))) raw
    | inclusion path => exact absurd hleaf.inclusion (by simp [Program.inclusionPath?])
  | block heading body rest ihbody ih =>
    rw [Program.heads_block_cons, List.forall_mem_cons, List.forall_mem_append] at hspares
    obtain ⟨hheading, hbody, hrest⟩ := hspares
    refine (alikeUnder_step s .look scopes scopes').bind (AlikeUnder.bind ?_ (ih hrest hnew hfresh h))
    cases heading with
    | loop name collection =>
      have hname : name ≠ new ∨ name = old := by
        rw [or_iff_not_imp_right]
        rintro hother rfl
        exact hfresh.elim (fun heq => hheading.loop (congrArg some heq)) hother
      refine alikeUnder_loop (h.resolve?_eq (hheading.paths collection (List.mem_singleton_self _)))
        fun number shown item => alikeUnder_body ?_
      have hturn := h.turn hold hnew hname (turnInfo number shown) item
      -- a loop over the old name hides it: from there on nothing is renamed any more
      by_cases hsame : name = old
      · rw [if_pos hsame] at hturn ⊢
        have halike := ihbody hbody hold (.inr rfl) hturn
        rwa [Program.rename_self] at halike
      · rw [if_neg hsame] at hturn ⊢
        exact ihbody hbody hnew hfresh hturn
    | conditional condition =>
      exact alikeUnder_choose (h.holds_eq hheading.paths) (alikeUnder_body (ihbody hbody hnew hfresh h))
        (alikeUnder_body (alikeUnder_step s .skip scopes scopes'))
    | region name => exact alikeUnder_region name (alikeUnder_body (ihbody hbody hnew hfresh h))
  | branches condition body otherwise rest ihbody ihotherwise ih =>
    rw [Program.heads_branches_cons, List.forall_mem_cons, List.forall_mem_append, List.forall_mem_append] at hspares
    obtain ⟨hheading, ⟨hbody, hother⟩, hrest⟩ := hspares
    refine (alikeUnder_step s .look scopes scopes').bind (AlikeUnder.bind ?_ (ih hrest hnew hfresh h))
    exact alikeUnder_choose (h.holds_eq hheading.paths) (alikeUnder_body (ihbody hbody hnew hfresh h))
      (alikeUnder_body (ihotherwise hother hnew hfresh h))

/-! ## Loops under other names -/

/-- A program that has the name nowhere, neither in its paths nor as a loop variable, spares it. -/
lemma spares_of_not_mem {program : Program} (hno : program.inclusions = []) {name : Text}
    (hnames : name ∉ program.names) (hloops : name ∉ program.loopVariables) {head : Leaf ⊕ Heading}
    (hhead : head ∈ Program.heads program) : Spares name head where
  inclusion := by
    rw [Program.inclusions_eq_filterMap_heads] at hno
    exact List.filterMap_eq_nil_iff.1 hno head hhead
  paths path hpath hname :=
    hnames (List.mem_filterMap.2 ⟨path, List.mem_flatMap.2 ⟨head, hhead, hpath⟩, hname⟩)
  loop hname := hloops (List.mem_filterMap.2 ⟨head, hhead, hname⟩)

/-- Actions that are alike under the same names are the same. -/
lemma eq_of_alikeUnder (h : ∀ scopes, AlikeUnder scopes scopes action action') : action' = action := by
  funext run
  have hsame : action' run = Ending.leave (Run.under run.scopes) (action run) := (h run.scopes run rfl).1
  have hscopes : (Ending.state (action run)).scopes = run.scopes := (h run.scopes run rfl).2
  rw [hsame]
  cases hends : action run with
  | ok u after =>
    rw [hends] at hscopes
    rw [Ending.leave, ← hscopes]
    rfl
  | error halt after =>
    rw [hends] at hscopes
    rw [Ending.leave, ← hscopes]
    rfl

/-- A value bound to a new name in place of the old one. The fresh name may have stood for something else before. -/
lemma mirrors_rebound (context : CleanContext) (v w : Text) (item : Value) (scopes : Scopes) :
    Mirrors context v w w ((v, item) :: scopes) ((w, item) :: scopes) := by
  intro name hname
  rw [valueOf?_cons, valueOf?_cons]
  by_cases hsame : name = v
  · rw [hsame, renamed_old, if_pos rfl, if_pos rfl]
  · rw [renamed_of_ne hsame, if_neg (Ne.symm hname), if_neg (Ne.symm hsame)]

variable {body : Program} {v w : Text}

/-- A loop with another name for its variable, and for the paths of its body that mean the variable. -/
lemma ofNode_rename (hno : body.inclusions = []) (hv : v ≠ turnName) (hw : w ≠ turnName) (hnames : w ∉ body.names)
    (hloops : w ∉ body.loopVariables) (collection : Path) (includeFile : Text → Action) :
    nodes.ofNode s includeFile (.loop w collection (body.rename v w)) =
      nodes.ofNode s includeFile (.loop v collection body) := by
  refine eq_of_alikeUnder fun scopes => alikeUnder_loop rfl fun number shown item => alikeUnder_body ?_
  refine alikeUnder_nodes (fun head hhead => spares_of_not_mem hno hnames hloops hhead) hv hw (.inl rfl) ?_ _ _
  exact (mirrors_rebound s.context v w item scopes).cons hv.symm hw.symm (turnInfo number shown)

/-- Nodes between which one stands that does the same as another. -/
lemma nodes_around {node node' : Node} {includeFile : Text → Action}
    (h : nodes.ofNode s includeFile node' = nodes.ofNode s includeFile node) (front behind : Program) :
    s.nodes includeFile (front ++ node' :: behind) = s.nodes includeFile (front ++ node :: behind) := by
  induction front with
  | nil => rw [List.nil_append, List.nil_append, nodes, nodes, h]
  | cons first front ih => rw [List.cons_append, List.cons_append, nodes, nodes, ih]

/-- A program does the same with a node in its gap as with another one that does the same. -/
lemma nodes_fill {node node' : Node} {includeFile : Text → Action}
    (h : nodes.ofNode s includeFile node' = nodes.ofNode s includeFile node) (around : Surroundings) :
    s.nodes includeFile (around.fill node') = s.nodes includeFile (around.fill node) := by
  induction around with
  | level front behind => exact nodes_around h front behind
  | loop front name collection inside behind ih =>
    refine nodes_around ?_ front behind
    rw [nodes.ofNode, nodes.ofNode, ih]
  | branch front condition inside other behind ih =>
    refine nodes_around ?_ front behind
    rw [nodes.ofNode, nodes.ofNode, ih]
  | alternative front condition other inside behind ih =>
    refine nodes_around ?_ front behind
    rw [nodes.ofNode, nodes.ofNode, ih]
  | region front name inside behind ih =>
    refine nodes_around ?_ front behind
    rw [nodes.ofNode, nodes.ofNode, ih]

/-- The variable of a loop without inclusions may have any other name that its body uses neither in front of a path nor
for a loop of its own: nothing can be told from how the run of a program around the loop ends. -/
theorem evaluate_fill_rename (s : Sandbox) (hno : body.inclusions = []) (hv : v ≠ turnName) (hw : w ≠ turnName)
    (hnames : w ∉ body.names) (hloops : w ∉ body.loopVariables) (collection : Path) (around : Surroundings)
    (cache : InclusionCache) :
    s.evaluate cache (around.fill (.loop w collection (body.rename v w))) =
      s.evaluate cache (around.fill (.loop v collection body)) := by
  have hexecute : s.execute s.budget.maxIncludeDepth (around.fill (.loop w collection (body.rename v w))) =
      s.execute s.budget.maxIncludeDepth (around.fill (.loop v collection body)) := by
    rw [execute_eq, execute_eq, nodes_fill (ofNode_rename hno hv hw hnames hloops collection _) around]
  unfold evaluate
  rw [hexecute]

/-- The parts of a cell that is a list, behind the cell; their loop has the name of the cells as well. -/
def cellBody : Program :=
  [.substitution ["cell"] "cell", .loop "cell" ["cell"] [.substitution ["cell"] "part"],
    .conditional (.equal (.path ["cell"]) (.text "2")) [.literal ";"] []]

/-- A program that goes through rows, with a gap for what it does with each. -/
def rowsAround : Surroundings := .loop [] "row" ["rows"] (.level [] [.substitution ["row", "0"] "none"]) []

/-- A table of two rows. -/
def rows : Sandbox :=
  { listing with context := ⟨[], [], [("rows", .array [.array [.number (.int 1), .array [.string "<"]],
      .array [.number (.int 2)]])]⟩ }

/-- The loop over the cells of a row may take the name of the row, which is seen again behind it. -/
theorem evaluate_rows_renamed :
    (cellBody.inclusions = [] ∧ "cell".toList ≠ turnName ∧ "row".toList ≠ turnName ∧
        "row".toList ∉ cellBody.names ∧ "row".toList ∉ cellBody.loopVariables) ∧
      cellBody.rename "cell" "row" =
        [.substitution ["row"] "cell", .loop "cell" ["row"] [.substitution ["cell"] "part"],
          .conditional (.equal (.path ["row"]) (.text "2")) [.literal ";"] []] ∧
      (rows.evaluate (InclusionCache.new 1 1) (rowsAround.fill (.loop "cell" ["row"] cellBody))).1 =
        .completed "1[&quot;&lt;&quot;]&lt;12;2" ∧
      rows.evaluate (InclusionCache.new 1 1) (rowsAround.fill (.loop "row" ["row"] (cellBody.rename "cell" "row"))) =
        rows.evaluate (InclusionCache.new 1 1) (rowsAround.fill (.loop "cell" ["row"] cellBody)) := by
  have hrow : "row".toList ∉ cellBody.names ∧ "row".toList ∉ cellBody.loopVariables := by decide
  refine ⟨⟨rfl, by decide, by decide, hrow.1, hrow.2⟩, rfl, by decide +kernel, ?_⟩
  exact evaluate_fill_rename rows rfl (by decide) (by decide) hrow.1 hrow.2 ["row"] rowsAround (InclusionCache.new 1 1)

end Sandbox

end Stencil
