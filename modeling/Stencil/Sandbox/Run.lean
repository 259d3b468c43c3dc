import Stencil.Budget
import Stencil.Markup.Escape
import Stencil.Sandbox.Bindings
import Stencil.Sandbox.Inclusion

/-!
# Runs

What a run is bound to stays the same from its beginning to its end (`Sandbox`); what it has done so far is its state
(`Run`). The actions here are the steps that a run is made of. Each of them that changes the scopes, the depth or the
depth of inclusions for a part of the run takes the change back when that part ends, however it ends.
-/

namespace Stencil

open Json Template

/-- When time is up, said for each look that a run takes at the clock. -/
abbrev Deadline := Nat → Bool

/-- The deadline of a budget of time. A run that has not been cancelled takes no time that could be seen, so it is late
only if it has no time at all. -/
def Deadline.ofBudget (milliseconds : Nat) (cancelled : Bool) : Deadline := fun _ => cancelled || milliseconds = 0

/-- What a run is bound to: its budget, how values are escaped, what names stand for, when time is up, and where
inclusions come from, if they are enabled. -/
structure Sandbox where
  budget : Budget
  escape : Markup.EscapeMode
  context : CleanContext
  deadline : Deadline
  loader : Option Sandbox.Loader

namespace Sandbox

/-- What a run has done so far: the texts written, latest first, and their bytes in all; the loops around the present
place; how deep it lies in other bodies and in inclusions; the turns of all loops; the looks taken at the clock; and
the inclusions that are kept. -/
structure Run where
  written : List Text
  size : Nat
  scopes : Scopes
  depth : Nat
  inclusionDepth : Nat
  turns : Nat
  looks : Nat
  cache : InclusionCache

namespace Run

/-- A run that has done nothing. -/
def start (cache : InclusionCache) : Run := ⟨[], 0, [], 0, 0, 0, 0, cache⟩

/-- What a run has written, in order. -/
def output (run : Run) : Text := run.written.reverse.flatten

end Run

/-- A part of a run. -/
abbrev Action := EStateM Halt Run Unit

/-- An action with a change to the state behind it, however the action ends. -/
def leaving (leave : Run → Run) (action : Action) : Action := fun run =>
  match action run with
  | .ok () after => .ok () (leave after)
  | .error halt after => .error halt (leave after)

/-- Looks at the clock. -/
def look (s : Sandbox) : Action := fun run =>
  if s.deadline run.looks then .error .timedOut { run with looks := run.looks + 1 }
  else .ok () { run with looks := run.looks + 1 }

/-- Writes a text, if it fits. -/
def emit (s : Sandbox) (t : Text) : Action := fun run =>
  if s.budget.maxOutputBytes < run.size + Text.byteLength t then .error .sizeExceeded run
  else .ok () { run with written := t :: run.written, size := run.size + Text.byteLength t }

/-- Writes the escaped text of the value that a path names, or the source of the substitution if it names none. -/
def substitute (s : Sandbox) (path : Path) (raw : Text) : Action := fun run =>
  match resolve? s.context run.scopes path with
  | some value => s.emit (s.escape.apply value.plainText) run
  | none => s.emit raw run

/-- A body inside of another. -/
def nested (s : Sandbox) (body : Action) : Action := fun run =>
  if s.budget.maxRecursionDepth ≤ run.depth then .error .recursionExceeded run
  else leaving (fun after => { after with depth := after.depth - 1 }) body { run with depth := run.depth + 1 }

/-! ## Loops -/

/-- The name under which a loop tells about its turns. -/
def turnName : Text := "loop"

/-- What a loop tells about a turn: its number counted from one, and whether it is the first or the last. -/
def turnInfo (number shown : Nat) : Value :=
  .object [("first", .bool (number = 1)), ("index", .number (.int number)), ("last", .bool (number = shown))]

/-- Counts a turn. -/
def countTurn (s : Sandbox) : Action := fun run =>
  if s.budget.maxTotalIterations < run.turns + 1 then .error .iterationsExceeded { run with turns := run.turns + 1 }
  else .ok () { run with turns := run.turns + 1 }

/-- An action with names bound around it. -/
def bound (bindings : Scopes) (action : Action) : Action := fun run =>
  leaving (fun after => { after with scopes := after.scopes.drop (after.scopes.length - run.scopes.length) }) action
    { run with scopes := bindings ++ run.scopes }

/-- The turns of a loop for the items that are left. What the loop tells about a turn stands in front of the item, so a
variable of that name is not seen. -/
def turnsFor (s : Sandbox) (name : Text) (shown : Nat) (body : Action) : Nat → List Value → Action
  | _, [] => pure ()
  | number, item :: rest => do
    s.look
    s.countTurn
    bound [(turnName, turnInfo number shown), (name, item)] (s.nested body)
    turnsFor s name shown body (number + 1) rest

/-- A body for each item of the list that a path names, as far as the budget allows; nothing if it names no list. -/
def loop (s : Sandbox) (name : Text) (collection : Path) (body : Action) : Action := fun run =>
  match resolve? s.context run.scopes collection with
  | some (.array all) =>
    let items := all.take s.budget.maxLoopIterations
    s.turnsFor name items.length body 1 items run
  | _ => .ok () run

/-! ## Choices -/

/-- One of two bodies. -/
def choose (s : Sandbox) (condition : Condition) (body otherwise : Action) : Action := fun run =>
  s.nested (if holds s.context run.scopes condition then body else otherwise) run

/-- A body that the caller may have switched off. -/
def region (s : Sandbox) (name : Text) (body : Action) : Action :=
  if s.context.regionEnabled name then s.nested body else pure ()

/-! ## Inclusions -/

/-- Another file, of whose program `execute` takes care; without it the run lies too deep in inclusions already. -/
def inclusion (s : Sandbox) (execute : Option (Program → Action)) (path : Text) : Action := fun run =>
  match s.loader, execute with
  | none, _ => .error (.aborted (.context .inclusionsDisabled)) run
  | some _, none => .error .inclusionDepthExceeded run
  | some loader, some execute =>
    -- the cache keeps what it has learnt, also from an inclusion that was refused
    match loader.load run.cache path with
    | (.error halt, cache) => .error halt { run with cache }
    | (.ok program, cache) =>
      leaving (fun after => { after with inclusionDepth := after.inclusionDepth - 1 }) (s.nested (execute program))
        { run with cache, inclusionDepth := run.inclusionDepth + 1 }

end Sandbox

end Stencil
