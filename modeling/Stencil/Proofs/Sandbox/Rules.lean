import Stencil.Proofs.Sandbox.Bounds
import Stencil.Proofs.Sandbox.Meaning

/-!
# The rules of runs

How a run goes on, said by rules (`Ends`): a body may lie in another one or in an inclusion wherever the depths that the
run has reached are below the bounds of the budget. Nothing in the rules says that a run comes to an end. Files may
include each other in a circle, and then every program found is followed by one more.

Each run does come to an end by these rules, in one way only (`Ends.unique`), and it is the end that the evaluator
computes (`ends_execute`). The clock may run or stand still.
-/

namespace Stencil.Sandbox

open Json Template

/-! ## Tasks -/

/-- What a run does without going into anything. -/
inductive Step where
  | skip
  | look
  | emit (t : Text)
  | countTurn

/-- The action that a step is. -/
def Step.action (s : Sandbox) : Step → Action
  | .skip => pure ()
  | .look => s.look
  | .emit t => s.emit t
  | .countTurn => s.countTurn

/-- What a run has before it. -/
inductive Task where
  | step (step : Step)
  | sequence (first second : Task)
  | nested (body : Task)
  | bound (bindings : Scopes) (body : Task)
  | part (part : Part)

/-- A program that is the body of something: the clock is looked at in front of it. -/
def Task.body (program : Program) : Task := .sequence (.step .look) (.part (.program program))

/-- What a part of a program comes down to under the names on the stack. What an inclusion comes down to cannot be told
from the program. -/
def Part.task? (s : Sandbox) (scopes : Scopes) : Part → Option Task
  | .program [] => some (.step .skip)
  | .program (first :: rest) =>
    some (.sequence (.step .look) (.sequence (.part (.node first)) (.part (.program rest))))
  | .node (.literal t) => some (.step (.emit t))
  | .node (.substitution path raw) =>
    some (.step (.emit ((resolve? s.context scopes path).elim raw fun value => s.escape.apply value.plainText)))
  | .node (.loop name collection body) =>
    match resolve? s.context scopes collection with
    | some (.array all) =>
      let items := all.take s.budget.maxLoopIterations
      some (.part (.turns name items.length body 1 items))
    | _ => some (.step .skip)
  | .node (.conditional condition body otherwise) =>
    some (.nested (if holds s.context scopes condition then .body body else .body otherwise))
  | .node (.region name body) => some (if s.context.regionEnabled name then .nested (.body body) else .step .skip)
  | .node (.inclusion _) => none
  | .turns _ _ _ _ [] => some (.step .skip)
  | .turns name shown body number (item :: rest) =>
    some (.sequence (.step .look) (.sequence (.step .countTurn)
      (.sequence (.bound [(turnName, turnInfo number shown), (name, item)] (.nested (.body body)))
        (.part (.turns name shown body (number + 1) rest)))))

/-! ## Rules -/

/-- How a task ends, and the state then. -/
abbrev Ending := EStateM.Result Halt Run Unit

/-- An end with a change to its state. -/
def Ending.leave (change : Run → Run) : Ending → Ending
  | .ok () after => .ok () (change after)
  | .error halt after => .error halt (change after)

/-- How a task ends that is begun in a state, and the paths of the inclusions that are met on the way. -/
inductive Ends (s : Sandbox) : Task → Run → List Text → Ending → Prop where
  | step {step run} : Ends s (.step step) run [] (step.action s run)
  | sequence {task next run between paths later ending} (first : Ends s task run paths (.ok () between))
      (second : Ends s next between later ending) : Ends s (.sequence task next) run (paths ++ later) ending
  | halted {task next run after halt paths} (first : Ends s task run paths (.error halt after)) :
      Ends s (.sequence task next) run paths (.error halt after)
  | nested {body run paths ending} (depth : run.depth < s.budget.maxRecursionDepth)
      (inside : Ends s body { run with depth := run.depth + 1 } paths ending) :
      Ends s (.nested body) run paths (Ending.leave (fun after => { after with depth := after.depth - 1 }) ending)
  | tooDeep {body run} (depth : s.budget.maxRecursionDepth ≤ run.depth) :
      Ends s (.nested body) run [] (.error .recursionExceeded run)
  | bound {bindings body run paths ending}
      (inside : Ends s body { run with scopes := bindings ++ run.scopes } paths ending) :
      Ends s (.bound bindings body) run paths (Ending.leave
        (fun after => { after with scopes := after.scopes.drop (after.scopes.length - run.scopes.length) }) ending)
  | part {part task run paths ending} (comes : part.task? s run.scopes = some task)
      (ends : Ends s task run paths ending) : Ends s (.part part) run paths ending
  | noLoader {path run} (disabled : s.loader = none) :
      Ends s (.part (.node (.inclusion path))) run [path] (.error (.aborted (.context .inclusionsDisabled)) run)
  | tooManyInclusions {path run loader} (enabled : s.loader = some loader)
      (depth : s.budget.maxIncludeDepth ≤ run.inclusionDepth) :
      Ends s (.part (.node (.inclusion path))) run [path] (.error .inclusionDepthExceeded run)
  | refused {path run loader halt cache} (enabled : s.loader = some loader)
      (depth : run.inclusionDepth < s.budget.maxIncludeDepth)
      (load : loader.load run.cache path = (.error halt, cache)) :
      Ends s (.part (.node (.inclusion path))) run [path] (.error halt { run with cache })
  | inclusion {path run loader program cache paths ending} (enabled : s.loader = some loader)
      (depth : run.inclusionDepth < s.budget.maxIncludeDepth)
      (load : loader.load run.cache path = (.ok program, cache))
      (inside : Ends s (.nested (.body program)) { run with cache, inclusionDepth := run.inclusionDepth + 1 } paths
        ending) :
      Ends s (.part (.node (.inclusion path))) run (path :: paths)
        (Ending.leave (fun after => { after with inclusionDepth := after.inclusionDepth - 1 }) ending)

variable {s : Sandbox} {task first second : Task} {run after : Run} {paths paths' : List Text}
  {ending ending' : Ending}

/-- What halts a body halts what it is the body of. -/
lemma Ends.nested_of_error {halt : Halt} (depth : run.depth < s.budget.maxRecursionDepth)
    (inside : s.Ends task { run with depth := run.depth + 1 } paths (.error halt after)) :
    s.Ends (.nested task) run paths (.error halt { after with depth := after.depth - 1 }) :=
  .nested depth inside

/-- An inclusion halts if the file that it loads does. -/
lemma Ends.inclusion_of_error {path : Text} {loader : Loader} {program : Program} {cache : InclusionCache}
    {halt : Halt} (enabled : s.loader = some loader) (depth : run.inclusionDepth < s.budget.maxIncludeDepth)
    (load : loader.load run.cache path = (.ok program, cache))
    (inside : s.Ends (.nested (.body program)) { run with cache, inclusionDepth := run.inclusionDepth + 1 } paths
      (.error halt after)) :
    s.Ends (.part (.node (.inclusion path))) run (path :: paths)
      (.error halt { after with inclusionDepth := after.inclusionDepth - 1 }) :=
  .inclusion enabled depth load inside

/-- A task ends in one way at most. -/
theorem Ends.unique (h : Ends s task run paths ending) (h' : Ends s task run paths' ending') :
    paths = paths' ∧ ending = ending' := by
  -- by induction on the first derivation; the task leaves the second one at most one rule to end with
  induction h generalizing paths' ending' with
  | step =>
    cases h'
    exact ⟨rfl, rfl⟩
  | sequence _ _ ih ihSecond =>
    cases h' with
    | sequence first second =>
      obtain ⟨rfl, hbetween⟩ := ih first
      obtain rfl := (EStateM.Result.ok.inj hbetween).2
      obtain ⟨rfl, rfl⟩ := ihSecond second
      exact ⟨rfl, rfl⟩
    | halted first => exact absurd (ih first).2 (by simp)
  | halted _ ih =>
    cases h' with
    | sequence first => exact absurd (ih first).2 (by simp)
    | halted first => exact ih first
  | nested depth _ ih =>
    cases h' with
    | nested _ inside =>
      obtain ⟨rfl, rfl⟩ := ih inside
      exact ⟨rfl, rfl⟩
    | tooDeep deep => exact absurd depth (Nat.not_lt.2 deep)
  | tooDeep deep =>
    cases h' with
    | nested depth => exact absurd depth (Nat.not_lt.2 deep)
    | tooDeep => exact ⟨rfl, rfl⟩
  | bound _ ih =>
    cases h' with
    | bound inside =>
      obtain ⟨rfl, rfl⟩ := ih inside
      exact ⟨rfl, rfl⟩
  | part comes _ ih =>
    cases h' with
    -- an inclusion has no task of its own, so none of its four rules competes with this one
    | part comes' ends =>
      obtain rfl := Option.some.inj (comes.symm.trans comes')
      exact ih ends
    | noLoader | tooManyInclusions | refused | inclusion => simp [Part.task?] at comes
  | noLoader disabled =>
    cases h' with
    | part comes => simp [Part.task?] at comes
    | noLoader => exact ⟨rfl, rfl⟩
    | tooManyInclusions enabled | refused enabled | inclusion enabled => simp [disabled] at enabled
  | tooManyInclusions enabled deep =>
    cases h' with
    | part comes => simp [Part.task?] at comes
    | noLoader disabled => simp [disabled] at enabled
    | tooManyInclusions => exact ⟨rfl, rfl⟩
    | refused _ depth | inclusion _ depth => exact absurd depth (Nat.not_lt.2 deep)
  | refused enabled depth load =>
    cases h' with
    | part comes => simp [Part.task?] at comes
    | noLoader disabled => simp [disabled] at enabled
    | tooManyInclusions _ deep => exact absurd depth (Nat.not_lt.2 deep)
    | refused enabled' _ load' =>
      obtain rfl := Option.some.inj (enabled.symm.trans enabled')
      obtain ⟨hhalt, rfl⟩ := Prod.mk.inj (load.symm.trans load')
      obtain rfl := Except.error.inj hhalt
      exact ⟨rfl, rfl⟩
    | inclusion enabled' _ load' =>
      obtain rfl := Option.some.inj (enabled.symm.trans enabled')
      simp [load] at load'
  | inclusion enabled depth load _ ih =>
    cases h' with
    | part comes => simp [Part.task?] at comes
    | noLoader disabled => simp [disabled] at enabled
    | tooManyInclusions _ deep => exact absurd depth (Nat.not_lt.2 deep)
    | refused enabled' _ load' =>
      obtain rfl := Option.some.inj (enabled.symm.trans enabled')
      simp [load] at load'
    | inclusion enabled' _ load' inside =>
      obtain rfl := Option.some.inj (enabled.symm.trans enabled')
      obtain ⟨hprogram, rfl⟩ := Prod.mk.inj (load.symm.trans load')
      obtain rfl := Except.ok.inj hprogram
      obtain ⟨rfl, rfl⟩ := ih inside
      exact ⟨rfl, rfl⟩

/-! ## What is as before behind a task -/

/-- Whether an end is a good one. -/
def Ending.IsOk : Ending → Prop
  | .ok .. => True
  | .error .. => False

lemma isOk_leave (change : Run → Run) (ending : Ending) :
    Ending.IsOk (Ending.leave change ending) ↔ Ending.IsOk ending := by
  cases ending <;> exact Iff.rfl

/-- The state in which a run ends. -/
def Ending.state : Ending → Run
  | .ok () after => after
  | .error _ after => after

lemma state_leave (change : Run → Run) (ending : Ending) :
    Ending.state (Ending.leave change ending) = change (Ending.state ending) := by
  cases ending <;> rfl

lemma behind_eq_state (action : Action) (run : Run) : behind action run = Ending.state (action run) := by
  unfold behind
  cases action run <;> rfl

lemma leaving_eq_leave (leave : Run → Run) (action : Action) (run : Run) :
    leaving leave action run = Ending.leave leave (action run) := by
  unfold leaving
  cases action run <;> rfl

/-- A single step keeps what every action keeps. -/
lemma Step.kept (s : Sandbox) (step : Step) (run : Run) : Kept run (Ending.state (step.action s run)) := by
  rw [← behind_eq_state]
  cases step with
  | skip => exact Kept.refl run
  | look => exact Recorded.kept_look s run
  | emit t => exact Recorded.kept_emit s t run
  | countTurn => exact Recorded.kept_countTurn s run

/-- However a task ends, the names, the depth and the depth of inclusions are as they were. -/
lemma Ends.kept (h : Ends s task run paths ending) : Kept run (Ending.state ending) := by
  induction h with
  | step => exact Step.kept s _ _
  | sequence _ _ ih ihSecond => exact ih.trans ihSecond
  | halted _ ih => exact ih
  | nested _ _ ih =>
    rw [state_leave]
    exact ih.nested
  | tooDeep | noLoader | tooManyInclusions => exact Kept.refl _
  | bound _ ih =>
    rw [state_leave]
    exact ih.bound
  | part _ _ ih => exact ih
  | refused => exact ⟨rfl, rfl, rfl, List.prefix_rfl, Nat.le_refl _⟩
  | inclusion _ _ _ _ ih =>
    rw [state_leave]
    exact ih.inclusion

/-! ## The evaluator goes by the rules -/

/-- Whether an action ends as a task does, wherever so many inclusions may still lie inside of each other. -/
def Performs (s : Sandbox) (room : Nat) (task : Task) (action : Action) : Prop :=
  ∀ run, run.inclusionDepth + room = s.budget.maxIncludeDepth → ∃ paths, s.Ends task run paths (action run)

variable {room : Nat} {action action' : Action}

lemma performs_step (s : Sandbox) (room : Nat) (step : Step) : s.Performs room (.step step) (step.action s) :=
  fun _ _ => ⟨[], .step⟩

/-- Two actions end as the rule of sequences says. -/
lemma Performs.andThen (h : s.Performs room first action) (h' : s.Performs room second action') :
    s.Performs room (.sequence first second) (do action; action') := by
  intro run hroom
  obtain ⟨paths, hfirst⟩ := h run hroom
  cases haction : action run with
  | ok u between =>
    rw [haction] at hfirst
    -- the first task has left the depth of inclusions as it was, so there is as much room for the second
    have hbetween : between.inclusionDepth = run.inclusionDepth := hfirst.kept.inclusionDepth
    obtain ⟨later, hsecond⟩ := h' between (by rw [hbetween, hroom])
    rw [Recorded.bind_of_ok action' haction]
    exact ⟨paths ++ later, .sequence hfirst hsecond⟩
  | error halt after =>
    rw [haction] at hfirst
    rw [Recorded.bind_of_error action' haction]
    exact ⟨paths, .halted hfirst⟩

/-- An action one level deeper ends as the rule of levels says. -/
lemma Performs.nested (h : s.Performs room task action) : s.Performs room (.nested task) (s.nested action) := by
  intro run hroom
  unfold Sandbox.nested
  by_cases hdeep : s.budget.maxRecursionDepth ≤ run.depth
  · rw [if_pos hdeep]
    exact ⟨[], .tooDeep hdeep⟩
  · obtain ⟨paths, hinside⟩ := h { run with depth := run.depth + 1 } hroom
    rw [if_neg hdeep, leaving_eq_leave]
    exact ⟨paths, .nested (Nat.lt_of_not_le hdeep) hinside⟩

/-- An action under bindings ends as the rule of bindings says. -/
lemma Performs.bound (h : s.Performs room task action) (bindings : Scopes) :
    s.Performs room (.bound bindings task) (bound bindings action) := by
  intro run hroom
  obtain ⟨paths, hinside⟩ := h { run with scopes := bindings ++ run.scopes } hroom
  unfold Sandbox.bound
  rw [leaving_eq_leave]
  exact ⟨paths, .bound hinside⟩

/-- A part is performed by what performs the task that it comes down to. -/
lemma performs_part {part : Part}
    (h : ∀ scopes, ∃ task, part.task? s scopes = some task ∧
      ∃ action', s.Performs room task action' ∧ ∀ run, run.scopes = scopes → action run = action' run) :
    s.Performs room (.part part) action := by
  intro run hroom
  obtain ⟨task, htask, action', hperforms, haction⟩ := h run.scopes
  obtain ⟨paths, hends⟩ := hperforms run hroom
  rw [haction run rfl]
  exact ⟨paths, .part htask hends⟩

lemma performs_part_of_eq {part : Part} (htask : ∀ scopes, part.task? s scopes = some task)
    (h : s.Performs room task action) : s.Performs room (.part part) action :=
  performs_part fun scopes => ⟨task, htask scopes, action, h, fun _ _ => rfl⟩

/-! ### Nodes -/

/-- A substitution ends as its rule says. -/
lemma performs_substitute (s : Sandbox) (room : Nat) (path : Path) (raw : Text) :
    s.Performs room (.part (.node (.substitution path raw))) (s.substitute path raw) := by
  refine performs_part fun scopes => ⟨_, rfl, _, performs_step s room _, fun run hscopes => ?_⟩
  unfold substitute
  rw [hscopes]
  cases resolve? s.context scopes path <;> rfl

/-- Turns end as their rule says, by induction on the items that are left. -/
lemma performs_turnsFor {body : Program} (h : s.Performs room (.body body) action) (name : Text)
    (shown number : Nat) (items : List Value) :
    s.Performs room (.part (.turns name shown body number items)) (s.turnsFor name shown action number items) := by
  induction items generalizing number with
  | nil => exact performs_part_of_eq (fun _ => rfl) (performs_step s room .skip)
  | cons item rest ih =>
    have hturn := h.nested.bound [(turnName, turnInfo number shown), (name, item)]
    exact performs_part_of_eq (fun _ => rfl) ((performs_step s room .look).andThen
      ((performs_step s room .countTurn).andThen (hturn.andThen (ih (number + 1)))))

/-- A loop ends as its rule says. -/
lemma performs_loop {body : Program} (h : s.Performs room (.body body) action) (name : Text) (collection : Path) :
    s.Performs room (.part (.node (.loop name collection body))) (s.loop name collection action) := by
  refine performs_part fun scopes => ?_
  unfold loop
  rw [Part.task?]
  cases hlist : resolve? s.context scopes collection with
  | none => exact ⟨_, rfl, _, performs_step s room .skip, fun run hscopes => by rw [hscopes, hlist]; rfl⟩
  | some value =>
    cases value with
    | array all =>
      exact ⟨_, rfl, _, performs_turnsFor h name _ 1 _, fun run hscopes => by rw [hscopes, hlist]⟩
    | null | bool | number | string | object =>
      exact ⟨_, rfl, _, performs_step s room .skip, fun run hscopes => by rw [hscopes, hlist]; rfl⟩

/-- A conditional ends as its rule says. -/
lemma performs_choose {body otherwise : Program} (h : s.Performs room (.body body) action)
    (h' : s.Performs room (.body otherwise) action') (condition : Condition) :
    s.Performs room (.part (.node (.conditional condition body otherwise))) (s.choose condition action action') := by
  refine performs_part fun scopes => ?_
  have hbranch : s.Performs room (if holds s.context scopes condition then .body body else .body otherwise)
      (if holds s.context scopes condition then action else action') := by
    split
    · exact h
    · exact h'
  refine ⟨_, rfl, _, hbranch.nested, fun run hscopes => ?_⟩
  rw [choose, hscopes]

/-- A region ends as its rule says. -/
lemma performs_region {body : Program} (h : s.Performs room (.body body) action) (name : Text) :
    s.Performs room (.part (.node (.region name body))) (s.region name action) := by
  refine performs_part_of_eq (fun _ => rfl) ?_
  unfold region
  split
  · exact h.nested
  · exact performs_step s room .skip

/-- Where no inclusion may lie inside, none is gone into. -/
lemma performs_tooMany (s : Sandbox) (path : Text) :
    s.Performs 0 (.part (.node (.inclusion path))) (s.inclusion none path) := by
  intro run hroom
  unfold inclusion
  cases hloader : s.loader with
  | none => exact ⟨[path], .noLoader hloader⟩
  | some loader => exact ⟨[path], .tooManyInclusions hloader (Nat.le_of_eq hroom.symm)⟩

/-- An inclusion ends as its rule says, one level below the inclusions of its file. -/
lemma performs_inclusion {execute : Program → Action}
    (h : ∀ program, s.Performs room (.body program) (execute program)) (path : Text) :
    s.Performs (room + 1) (.part (.node (.inclusion path))) (s.inclusion (some execute) path) := by
  intro run hroom
  unfold inclusion
  cases hloader : s.loader with
  | none => exact ⟨[path], .noLoader hloader⟩
  | some loader =>
    have hdepth : run.inclusionDepth < s.budget.maxIncludeDepth := by omega
    dsimp only
    rcases hload : loader.load run.cache path with ⟨answer, cache⟩
    cases answer with
    | error halt => exact ⟨[path], .refused hloader hdepth hload⟩
    | ok program =>
      obtain ⟨paths, hinside⟩ := (h program).nested { run with cache, inclusionDepth := run.inclusionDepth + 1 }
        (by dsimp only; omega)
      dsimp only
      rw [leaving_eq_leave]
      exact ⟨path :: paths, .inclusion hloader hdepth hload hinside⟩

/-! ### Programs -/

mutual

/-- A program ends as its rule says, by induction on its nodes. -/
lemma performs_nodes {includeFile : Text → Action}
    (h : ∀ path, s.Performs room (.part (.node (.inclusion path))) (includeFile path)) :
    (program : Program) → s.Performs room (.part (.program program)) (s.nodes includeFile program)
  | [] => performs_part_of_eq (fun _ => rfl) (performs_step s room .skip)
  | node :: rest =>
    performs_part_of_eq (fun _ => rfl)
      ((performs_step s room .look).andThen ((performs_node h node).andThen (performs_nodes h rest)))

/-- A body ends as its rule says. -/
lemma performs_body {includeFile : Text → Action}
    (h : ∀ path, s.Performs room (.part (.node (.inclusion path))) (includeFile path)) (program : Program) :
    s.Performs room (.body program) (do s.look; s.nodes includeFile program) :=
  (performs_step s room .look).andThen (performs_nodes h program)

/-- A node ends as its rule says. -/
lemma performs_node {includeFile : Text → Action}
    (h : ∀ path, s.Performs room (.part (.node (.inclusion path))) (includeFile path)) :
    (node : Node) → s.Performs room (.part (.node node)) (nodes.ofNode s includeFile node)
  | .literal t => performs_part_of_eq (fun _ => rfl) (performs_step s room (.emit t))
  | .substitution path raw => performs_substitute s room path raw
  | .loop name collection body => performs_loop (performs_body h body) name collection
  | .conditional condition body otherwise =>
    performs_choose (performs_body h body) (performs_body h otherwise) condition
  | .region name body => performs_region (performs_body h body) name
  | .inclusion path => h path

end

/-- The recursion goes down the number of inclusions that may still lie inside of each other. -/
lemma performs_inclusionWithin (s : Sandbox) (room : Nat) (path : Text) :
    s.Performs room (.part (.node (.inclusion path))) (s.inclusionWithin room path) := by
  induction room generalizing path with
  | zero => exact performs_tooMany s path
  | succ room ih =>
    refine performs_inclusion (fun program => ?_) path
    rw [execute_eq]
    exact performs_body ih program

/-- A run of a program ends by the rules, and as the evaluator has it end. -/
theorem ends_execute (s : Sandbox) (cache : InclusionCache) (program : Program) :
    ∃ paths, s.Ends (.body program) (Run.start cache) paths
      (s.execute s.budget.maxIncludeDepth program (Run.start cache)) := by
  rw [execute_eq]
  exact performs_body (performs_inclusionWithin s s.budget.maxIncludeDepth) program _ (Nat.zero_add _)

/-- What a run is reported as, and the inclusions that are kept behind it. -/
def Ending.outcome : Ending → Outcome × InclusionCache
  | .ok () after => (.completed after.output, after.cache)
  | .error halt after => (.halted halt, after.cache)

/-- The evaluator answers the outcome of the ending. -/
lemma evaluate_eq_outcome (s : Sandbox) (cache : InclusionCache) (program : Program) :
    s.evaluate cache program =
      Ending.outcome (s.execute s.budget.maxIncludeDepth program (Run.start cache)) := by
  unfold evaluate
  cases s.execute s.budget.maxIncludeDepth program (Run.start cache) <;> rfl

/-- However the rules have the run of a program end, the evaluator has it end so. -/
lemma Ends.evaluate_eq {cache : InclusionCache} {program : Program}
    (h : s.Ends (.body program) (Run.start cache) paths ending) : s.evaluate cache program = Ending.outcome ending := by
  obtain ⟨_, hexecute⟩ := ends_execute s cache program
  rw [evaluate_eq_outcome, (h.unique hexecute).2]

end Stencil.Sandbox
