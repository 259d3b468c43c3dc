import Mathlib.Tactic.SplitIfs
import Stencil.Sandbox.Evaluation

/-!
# Records of runs

The state in which a run ends does not tell what it has gone through on its way. So each action is recorded: beside what
it does, a record lists the moments of it (`Recorded`). The record of a program does what the program does
(`Recorded.action_execute`), whether that ends well or not.

All that a run can do is said once, by the ways in which its record is composed (`Composed`, `composed_execute`). What
holds of every run is shown by induction on these.
-/

namespace Stencil.Sandbox

open Json Template

/-- What is special about a moment: nothing, that the body of a loop is entered, or that a file is asked for. -/
inductive Mark where
  | plain
  | turn
  | inclusion (path : Text)
deriving DecidableEq

/-- A state that a run goes through. -/
structure Moment where
  mark : Mark
  run : Run

/-- The state behind an action, however it ends. -/
def behind (action : Action) (run : Run) : Run :=
  match action run with
  | .ok () after => after
  | .error _ after => after

/-- An action, and the moments that it goes through: every state that it brings about, in order. -/
structure Recorded where
  action : Action
  moments : Run → List Moment

namespace Recorded

/-! ## Composing records -/

/-- Nothing is done. -/
def skip : Recorded := ⟨pure (), fun _ => []⟩

/-- An action of one step. -/
def step (action : Action) : Recorded := ⟨action, fun run => [⟨.plain, behind action run⟩]⟩

/-- An action of which only the effect is recorded. -/
def unrecorded (action : Action) : Recorded := ⟨action, fun _ => []⟩

/-- Two actions, the second only if the first ends well. -/
def andThen (first second : Recorded) : Recorded where
  action := do first.action; second.action
  moments run := first.moments run ++
    match first.action run with
    | .ok () between => second.moments between
    | .error .. => []

/-- An action that depends on the state in which it begins. -/
def choice (record : Run → Recorded) : Recorded :=
  ⟨fun run => (record run).action run, fun run => (record run).moments run⟩

/-- A body inside of another, if it does not lie too deep. -/
def nested (s : Sandbox) (mark : Mark) (body : Recorded) : Recorded where
  action := s.nested body.action
  moments run :=
    if s.budget.maxRecursionDepth ≤ run.depth then []
    else
      let inside := { run with depth := run.depth + 1 }
      ⟨mark, inside⟩ :: body.moments inside ++ [⟨.plain, behind (s.nested body.action) run⟩]

/-- An action with names bound around it. -/
def bound (bindings : Scopes) (body : Recorded) : Recorded where
  action := Sandbox.bound bindings body.action
  moments run :=
    let inside := { run with scopes := bindings ++ run.scopes }
    ⟨.plain, inside⟩ :: body.moments inside ++ [⟨.plain, behind (Sandbox.bound bindings body.action) run⟩]

/-- A turn of a loop: it is counted, and the body entered under the names of the turn. -/
def turn (s : Sandbox) (bindings : Scopes) (body : Recorded) : Recorded :=
  (step s.countTurn).andThen (bound bindings (nested s .turn body))

/-- A file asked for and its program run, unless there are no inclusions here. -/
def inclusion (s : Sandbox) (execute : Option (Program → Recorded)) (path : Text) : Recorded where
  action := s.inclusion (execute.map fun execute program => (execute program).action) path
  moments run :=
    match s.loader, execute with
    | some loader, some execute =>
      ⟨.inclusion path, run⟩ ::
        match loader.load run.cache path with
        | (.error _, cache) => [⟨.plain, { run with cache }⟩]
        | (.ok program, cache) =>
          let loaded := { run with cache, inclusionDepth := run.inclusionDepth + 1 }
          ⟨.plain, loaded⟩ :: (nested s .plain (execute program)).moments loaded ++
            [⟨.plain, behind (s.inclusion (some fun program => (execute program).action) path) run⟩]
    | _, _ => []

/-! ## The record of a program -/

/-- The turns of a loop for the items that are left. -/
def turnsFor (s : Sandbox) (name : Text) (shown : Nat) (body : Recorded) : Nat → List Value → Recorded
  | _, [] => skip
  | number, item :: rest =>
    (step s.look).andThen
      ((turn s [(turnName, turnInfo number shown), (name, item)] body).andThen
        (turnsFor s name shown body (number + 1) rest))

/-- A body for each item of the list that a path names. -/
def loop (s : Sandbox) (name : Text) (collection : Path) (body : Recorded) : Recorded :=
  choice fun run =>
    match resolve? s.context run.scopes collection with
    | some (.array all) =>
      let items := all.take s.budget.maxLoopIterations
      turnsFor s name items.length body 1 items
    | _ => skip

/-- The text of the value that a path names, or the source of the substitution. -/
def substitute (s : Sandbox) (path : Path) (raw : Text) : Recorded :=
  choice fun run =>
    match resolve? s.context run.scopes path with
    | some value => step (s.emit (s.escape.apply value.plainText))
    | none => step (s.emit raw)

/-- One of two bodies. -/
def choose (s : Sandbox) (condition : Condition) (body otherwise : Recorded) : Recorded :=
  choice fun run => nested s .plain (if holds s.context run.scopes condition then body else otherwise)

/-- A body that the caller may have switched off. -/
def region (s : Sandbox) (name : Text) (body : Recorded) : Recorded :=
  if s.context.regionEnabled name then nested s .plain body else skip

/-- Nodes one after the other. -/
def nodes (s : Sandbox) (includeFile : Text → Recorded) : List Node → Recorded
  | [] => skip
  | node :: rest => (step s.look).andThen ((ofNode node).andThen (nodes s includeFile rest))
where
  /-- A node. -/
  ofNode : Node → Recorded
    | .literal t => step (s.emit t)
    | .substitution path raw => substitute s path raw
    | .loop name collection body => loop s name collection ((step s.look).andThen (nodes s includeFile body))
    | .conditional condition body otherwise =>
      choose s condition ((step s.look).andThen (nodes s includeFile body))
        ((step s.look).andThen (nodes s includeFile otherwise))
    | .region name body => region s name ((step s.look).andThen (nodes s includeFile body))
    | .inclusion path => includeFile path

/-- The files that may be included if so many inclusions may lie inside of each other. -/
def files (s : Sandbox) : Nat → Text → Recorded
  | 0 => inclusion s none
  | room + 1 => inclusion s (some fun program => (step s.look).andThen (nodes s (files s room) program))

/-- A program in which so many inclusions may lie inside of each other. -/
def execute (s : Sandbox) (room : Nat) (program : Program) : Recorded :=
  (step s.look).andThen (nodes s (files s room) program)

end Recorded

/-- The moments of a run of a program, from its beginning to its end. -/
def history (s : Sandbox) (cache : InclusionCache) (program : Program) : List Moment :=
  ⟨.plain, Run.start cache⟩ :: (Recorded.execute s s.budget.maxIncludeDepth program).moments (Run.start cache)

/-! ## A record does what the run does -/

/-- What an inclusion does where so many may still lie inside of each other. -/
def inclusionWithin (s : Sandbox) : Nat → Text → Action
  | 0 => s.inclusion none
  | room + 1 => s.inclusion (some (s.execute room))

lemma execute_eq (s : Sandbox) (room : Nat) (program : Program) :
    s.execute room program = (do s.look; s.nodes (s.inclusionWithin room) program) := by
  cases room <;> rfl

namespace Recorded

/-- A recorded loop does to the run what the loop itself does, turn for turn. -/
lemma action_turnsFor (s : Sandbox) (name : Text) (shown number : Nat) (body : Recorded) (items : List Value) :
    (turnsFor s name shown body number items).action = s.turnsFor name shown body.action number items := by
  induction items generalizing number with
  | nil => rfl
  | cons item rest ih =>
    rw [turnsFor, Sandbox.turnsFor, ← ih (number + 1)]
    -- a turn is counted and gone through in one
    simp only [andThen, turn, bind_assoc]
    rfl

/-- A recorded loop over a collection does what the loop does. -/
lemma action_loop (s : Sandbox) (name : Text) (collection : Path) (body : Recorded) :
    (loop s name collection body).action = s.loop name collection body.action := by
  funext run
  rw [Sandbox.loop]
  simp only [loop, choice]
  cases resolve? s.context run.scopes collection with
  | none => rfl
  | some value =>
    cases value with
    | array all => exact congrFun (action_turnsFor s name _ 1 body _) run
    | null | bool | number | string | object => rfl

lemma action_substitute (s : Sandbox) (path : Path) (raw : Text) :
    (substitute s path raw).action = s.substitute path raw := by
  funext run
  rw [Sandbox.substitute]
  simp only [substitute, choice]
  cases resolve? s.context run.scopes path <;> rfl

/-- A recorded choice does what the choice between its two bodies does. -/
lemma action_choose (s : Sandbox) (condition : Condition) (body otherwise : Recorded) :
    (choose s condition body otherwise).action = s.choose condition body.action otherwise.action := by
  funext run
  rw [Sandbox.choose]
  simp only [choose, choice, nested]
  split
  · rfl
  · rfl

lemma action_region (s : Sandbox) (name : Text) (body : Recorded) :
    (region s name body).action = s.region name body.action := by
  rw [region, Sandbox.region]
  split
  · rfl
  · rfl

mutual

/-- A recorded program does what the program does, if its recorded inclusions do what the inclusions do. -/
lemma action_nodes (s : Sandbox) (includeFile : Text → Recorded) : (program : Program) →
    (nodes s includeFile program).action = s.nodes (fun path => (includeFile path).action) program
  | [] => rfl
  | node :: rest => by
    rw [nodes, Sandbox.nodes, ← action_ofNode s includeFile node, ← action_nodes s includeFile rest]
    rfl

/-- A recorded node does what the node does. -/
lemma action_ofNode (s : Sandbox) (includeFile : Text → Recorded) : (node : Node) →
    (nodes.ofNode s includeFile node).action = Sandbox.nodes.ofNode s (fun path => (includeFile path).action) node
  | .literal t => rfl
  | .substitution path raw => action_substitute s path raw
  | .loop name collection body => by
    rw [nodes.ofNode, Sandbox.nodes.ofNode, action_loop, ← action_nodes s includeFile body]
    rfl
  | .conditional condition body otherwise => by
    rw [nodes.ofNode, Sandbox.nodes.ofNode, action_choose, ← action_nodes s includeFile body,
      ← action_nodes s includeFile otherwise]
    rfl
  | .region name body => by
    rw [nodes.ofNode, Sandbox.nodes.ofNode, action_region, ← action_nodes s includeFile body]
    rfl
  | .inclusion path => rfl

end

/-- Recorded inclusions do what the inclusions do, however deep they may still go. -/
lemma action_files (s : Sandbox) (room : Nat) :
    (fun path => (files s room path).action) = s.inclusionWithin room := by
  induction room with
  | zero => rfl
  | succ room ih =>
    have hexecute : (fun program => (execute s room program).action) = s.execute room := by
      funext program
      rw [execute_eq, execute, andThen, action_nodes, ih]
      rfl
    rw [inclusionWithin, ← hexecute]
    rfl

theorem action_execute (s : Sandbox) (room : Nat) (program : Program) :
    (execute s room program).action = s.execute room program := by
  rw [execute_eq, execute, andThen, action_nodes, action_files]
  rfl

/-! ## What is behind a composed action -/

lemma behind_leaving (leave : Run → Run) (action : Action) (run : Run) :
    behind (leaving leave action) run = leave (behind action run) := by
  unfold behind leaving
  cases action run <;> rfl

lemma behind_look (s : Sandbox) (run : Run) : behind s.look run = { run with looks := run.looks + 1 } := by
  unfold behind look
  split_ifs <;> rfl

lemma behind_countTurn (s : Sandbox) (run : Run) : behind s.countTurn run = { run with turns := run.turns + 1 } := by
  unfold behind countTurn
  split_ifs <;> rfl

/-- Text that does not fit any more is not written; the run ends as it was before. -/
lemma behind_emit (s : Sandbox) (t : Text) (run : Run) :
    behind (s.emit t) run =
      if s.budget.maxOutputBytes < run.size + Text.byteLength t then run
      else { run with written := t :: run.written, size := run.size + Text.byteLength t } := by
  unfold behind emit
  split_ifs <;> rfl

/-- Behind a body that is too deep the run is as it was, and behind another one its depth is back. -/
lemma behind_nested (s : Sandbox) (body : Action) (run : Run) :
    behind (s.nested body) run =
      if s.budget.maxRecursionDepth ≤ run.depth then run
      else
        let inside := behind body { run with depth := run.depth + 1 }
        { inside with depth := inside.depth - 1 } := by
  by_cases hdeep : s.budget.maxRecursionDepth ≤ run.depth
  · rw [behind, Sandbox.nested, if_pos hdeep, if_pos hdeep]
  · rw [if_neg hdeep, ← behind_leaving fun after => { after with depth := after.depth - 1 }, behind, Sandbox.nested,
      if_neg hdeep, behind]

/-- Behind a body with bindings of its own they are gone again. -/
lemma behind_bound (bindings : Scopes) (body : Action) (run : Run) :
    behind (Sandbox.bound bindings body) run =
      let inside := behind body { run with scopes := bindings ++ run.scopes }
      { inside with scopes := inside.scopes.drop (inside.scopes.length - run.scopes.length) } :=
  behind_leaving _ body _

/-- Too deep in inclusions, no file is asked for. -/
lemma inclusion_none (s : Sandbox) (path : Text) (run : Run) :
    behind (inclusion s none path).action run = run ∧ (inclusion s none path).moments run = [] := by
  cases hloader : s.loader with
  | none | some => simp [behind, inclusion, Sandbox.inclusion, hloader]

/-- A file is asked for only if there is a loader; it may be refused, or its program is run. -/
lemma inclusion_cases (s : Sandbox) (execute : Program → Recorded) (path : Text) (run : Run) :
    (s.loader = none ∧ behind (inclusion s (some execute) path).action run = run ∧
      (inclusion s (some execute) path).moments run = []) ∨
    ∃ loader, s.loader = some loader ∧
      ((∃ halt cache, loader.load run.cache path = (.error halt, cache) ∧
        behind (inclusion s (some execute) path).action run = { run with cache } ∧
        (inclusion s (some execute) path).moments run = [⟨.inclusion path, run⟩, ⟨.plain, { run with cache }⟩]) ∨
      ∃ program cache, loader.load run.cache path = (.ok program, cache) ∧
        let loaded := { run with cache, inclusionDepth := run.inclusionDepth + 1 }
        let inside := behind (nested s .plain (execute program)).action loaded
        let left := { inside with inclusionDepth := inside.inclusionDepth - 1 }
        behind (inclusion s (some execute) path).action run = left ∧
        (inclusion s (some execute) path).moments run =
          ⟨.inclusion path, run⟩ :: ⟨.plain, loaded⟩ :: (nested s .plain (execute program)).moments loaded ++
            [⟨.plain, left⟩]) := by
  -- an inclusion is off, refused or entered, and in each case both sides are computed
  cases hloader : s.loader with
  | none =>
    refine .inl ⟨rfl, ?_, ?_⟩
    · simp only [behind, inclusion, Sandbox.inclusion, hloader]
    · simp only [inclusion, hloader]
  | some loader =>
    refine .inr ⟨loader, rfl, ?_⟩
    rcases hload : loader.load run.cache path with ⟨answer, cache⟩
    cases answer with
    | error halt =>
      refine .inl ⟨halt, cache, rfl, ?_, ?_⟩
      · simp only [behind, inclusion, Sandbox.inclusion, hloader, hload, Option.map_some]
      · simp only [inclusion, hloader, hload]
    | ok program =>
      have hleft : behind (inclusion s (some execute) path).action run =
          let loaded := { run with cache, inclusionDepth := run.inclusionDepth + 1 }
          let inside := behind (nested s .plain (execute program)).action loaded
          { inside with inclusionDepth := inside.inclusionDepth - 1 } := by
        rw [behind]
        simp only [inclusion, Sandbox.inclusion, hloader, hload, Option.map_some]
        exact behind_leaving _ _ _
      refine .inr ⟨program, cache, rfl, hleft, ?_⟩
      rw [← hleft]
      simp only [inclusion, hloader, hload, Option.map_some]
      rfl

variable {action next : Action} {first : Recorded} {run between after : Run} {halt : Halt}

lemma bind_of_ok (next : Action) (h : action run = .ok () between) : (do action; next) run = next between := by
  change EStateM.bind action (fun _ => next) run = _
  rw [EStateM.bind, h]

lemma bind_of_error (next : Action) (h : action run = .error halt after) :
    (do action; next) run = .error halt after := by
  change EStateM.bind action (fun _ => next) run = _
  rw [EStateM.bind, h]

/-- The moments of two actions are those of the first and, if it succeeds, those of the second behind it. -/
lemma andThen_of_ok (second : Recorded) (h : first.action run = .ok () between) :
    (first.andThen second).action run = second.action between ∧
      (first.andThen second).moments run = first.moments run ++ second.moments between := by
  refine ⟨bind_of_ok second.action h, ?_⟩
  rw [andThen]
  simp only [h]

/-- If the first of two actions halts, its moments are all that there are. -/
lemma andThen_of_error (second : Recorded) (h : first.action run = .error halt after) :
    (first.andThen second).action run = .error halt after ∧
      (first.andThen second).moments run = first.moments run := by
  refine ⟨bind_of_error second.action h, ?_⟩
  rw [andThen]
  simp only [h, List.append_nil]

/-- The second of two actions is reached, or the first has ended the run. -/
lemma andThen_cases (first second : Recorded) (run : Run) :
    (behind (first.andThen second).action run = behind second.action (behind first.action run) ∧
      (first.andThen second).moments run = first.moments run ++ second.moments (behind first.action run)) ∨
    behind (first.andThen second).action run = behind first.action run ∧
      (first.andThen second).moments run = first.moments run := by
  cases h : first.action run with
  | ok u between =>
    obtain ⟨haction, hboth⟩ := andThen_of_ok second h
    refine .inl ⟨?_, ?_⟩
    · simp only [behind, haction, h]
    · simp only [behind, hboth, h]
  | error halt after =>
    obtain ⟨haction, hone⟩ := andThen_of_error second h
    refine .inr ⟨?_, hone⟩
    simp only [behind, haction, h]

/-! ## All that a run can do -/

/-- How records are composed in which so many inclusions may lie inside of each other. -/
inductive Composed (s : Sandbox) : Nat → Recorded → Prop where
  | skip {room} : Composed s room skip
  | look {room} : Composed s room (step s.look)
  | emit {room} (t : Text) : Composed s room (step (s.emit t))
  | andThen {room first second} (hfirst : Composed s room first) (hsecond : Composed s room second) :
      Composed s room (first.andThen second)
  | nested {room body} (hbody : Composed s room body) : Composed s room (nested s .plain body)
  | turn {room body} (bindings : Scopes) (hbody : Composed s room body) : Composed s room (turn s bindings body)
  | choice {room} {record : Run → Recorded} (hrecord : ∀ run, Composed s room (record run)) :
      Composed s room (choice record)
  | tooDeep {room} (path : Text) : Composed s room (inclusion s none path)
  | inclusion {room} {execute : Program → Recorded} (path : Text)
      (hexecute : ∀ program, Composed s room (execute program)) :
      Composed s (room + 1) (inclusion s (some execute) path)

variable {s : Sandbox} {room : Nat} {body otherwise : Recorded}

lemma composed_turnsFor (h : Composed s room body) (name : Text) (shown number : Nat) (items : List Value) :
    Composed s room (turnsFor s name shown body number items) := by
  induction items generalizing number with
  | nil => exact .skip
  | cons item rest ih => exact .andThen .look (.andThen (.turn _ h) (ih (number + 1)))

lemma composed_loop (h : Composed s room body) (name : Text) (collection : Path) :
    Composed s room (loop s name collection body) := by
  refine .choice fun run => ?_
  split
  · exact composed_turnsFor h name _ 1 _
  · exact .skip

lemma composed_substitute (path : Path) (raw : Text) : Composed s room (substitute s path raw) := by
  refine .choice fun run => ?_
  split
  · exact .emit _
  · exact .emit raw

/-- A choice is composed of the body that is chosen. -/
lemma composed_choose (condition : Condition) (h : Composed s room body) (h' : Composed s room otherwise) :
    Composed s room (choose s condition body otherwise) := by
  refine .choice fun run => .nested ?_
  split
  · exact h
  · exact h'

lemma composed_region (name : Text) (h : Composed s room body) : Composed s room (region s name body) := by
  rw [region]
  split
  · exact .nested h
  · exact .skip

mutual

/-- A program is composed of its nodes if its inclusions are composed. -/
lemma composed_nodes {includeFile : Text → Recorded} (h : ∀ path, Composed s room (includeFile path)) :
    (program : Program) → Composed s room (nodes s includeFile program)
  | [] => .skip
  | node :: rest => .andThen .look (.andThen (composed_ofNode h node) (composed_nodes h rest))

lemma composed_ofNode {includeFile : Text → Recorded} (h : ∀ path, Composed s room (includeFile path)) :
    (node : Node) → Composed s room (nodes.ofNode s includeFile node)
  | .literal t => .emit t
  | .substitution path raw => composed_substitute path raw
  | .loop name collection body => composed_loop (.andThen .look (composed_nodes h body)) name collection
  | .conditional condition body otherwise =>
    composed_choose condition (.andThen .look (composed_nodes h body)) (.andThen .look (composed_nodes h otherwise))
  | .region name body => composed_region name (.andThen .look (composed_nodes h body))
  | .inclusion path => h path

end

lemma composed_files (s : Sandbox) (room : Nat) (path : Text) : Composed s room (files s room path) := by
  induction room generalizing path with
  | zero => exact .tooDeep path
  | succ room ih => exact .inclusion path fun program => .andThen .look (composed_nodes ih program)

/-- The record of a program is composed in these ways. -/
theorem composed_execute (s : Sandbox) (room : Nat) (program : Program) : Composed s room (execute s room program) :=
  .andThen .look (composed_nodes (composed_files s room) program)

/-! ## The last moment -/

/-- The state behind some moments, or one in front of them if there are none. -/
def last (run : Run) (moments : List Moment) : Run := (moments.getLast?.map Moment.run).getD run

@[simp] lemma last_nil (run : Run) : last run [] = run := rfl

@[simp] lemma last_concat (run : Run) (moments : List Moment) (m : Moment) : last run (moments ++ [m]) = m.run := by
  rw [last, List.getLast?_concat]
  rfl

lemma map_run_getLast?_cons (mark : Mark) (run : Run) (moments : List Moment) :
    (⟨mark, run⟩ :: moments : List Moment).getLast?.map Moment.run = some (last run moments) := by
  rw [List.getLast?_cons, Option.map_some, last]
  cases moments.getLast? <;> rfl

lemma last_append (run : Run) (moments later : List Moment) :
    last run (moments ++ later) = last (last run moments) later := by
  rw [last, last, last, List.getLast?_append]
  cases later.getLast? <;> rfl

/-- If both actions end at their last moment, so does one behind the other. -/
lemma last_andThen {first second : Recorded} (h : ∀ run, last run (first.moments run) = behind first.action run)
    (h' : ∀ run, last run (second.moments run) = behind second.action run) (run : Run) :
    last run ((first.andThen second).moments run) = behind (first.andThen second).action run := by
  rcases andThen_cases first second run with ⟨hbehind, hboth⟩ | ⟨hbehind, hone⟩
  · rw [hbehind, hboth, last_append, h run]
    exact h' _
  · rw [hbehind, hone]
    exact h run

/-- If a body ends at its last moment, so does the body one level deeper. -/
lemma last_nested (s : Sandbox) (mark : Mark) (body : Recorded) (run : Run) :
    last run ((nested s mark body).moments run) = behind (nested s mark body).action run := by
  by_cases hdeep : s.budget.maxRecursionDepth ≤ run.depth
  · show last run ((nested s mark body).moments run) = behind (s.nested body.action) run
    rw [behind_nested, if_pos hdeep, nested]
    dsimp only
    rw [if_pos hdeep, last_nil]
  · rw [nested]
    dsimp only
    rw [if_neg hdeep, last_concat]

/-- The moments of an action end in the state in which it ends. -/
lemma Composed.last_moments {record : Recorded} (h : Composed s room record) (run : Run) :
    last run (record.moments run) = behind record.action run := by
  induction h generalizing run with
  | skip | look | emit => rfl
  | andThen _ _ ih ih' => exact last_andThen ih ih' run
  | nested => exact last_nested s .plain _ run
  | turn bindings =>
    refine last_andThen (fun run => rfl) (fun run => ?_) run
    rw [bound, last_concat]
  | choice _ ih => exact ih run run
  | tooDeep path =>
    obtain ⟨hbehind, hnone⟩ := inclusion_none s path run
    rw [hbehind, hnone, last_nil]
  | inclusion path =>
    rename_i execute _ _
    obtain ⟨-, hbehind, hnone⟩ | ⟨loader, -, ⟨halt, cache, -, hbehind, hrefused⟩ |
      ⟨program, cache, -, hbehind, hrun⟩⟩ := inclusion_cases s execute path run
    · rw [hbehind, hnone, last_nil]
    · rw [hbehind, hrefused]
      rfl
    · rw [hbehind, hrun, last_concat]

end Recorded

end Stencil.Sandbox
