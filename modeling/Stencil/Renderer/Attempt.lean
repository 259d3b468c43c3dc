import Stencil.Renderer.Basic
import Stencil.Template.Store

/-!
# Attempts to render

An attempt goes through gates, one after the other, and ends at the first that rejects it: permission, rate, inspection
of the template, inspection of the context, reading, and evaluation. What comes out is sanitised as a document, and
personal data in it masked if the template says so. Every attempt, whatever its end, is measured once and leaves one
event in the audit.
-/

namespace Stencil.Renderer

open Inspection Policy Template

/-- Where an attempt may be rejected. -/
inductive Gate where
  | permission
  | rate
  | validation
  | context
  | reading
  | evaluation
deriving DecidableEq, Repr

/-- The name of a gate in the metrics. -/
def Gate.name : Gate → Text
  | permission => "permission"
  | rate => "rate_limit"
  | validation => "validation"
  | context => "context"
  | reading => "parse"
  | evaluation => "sandbox"

/-- How a template is asked for: the context and who asks; whether the attempt has been cancelled before it began, when
its time is up, the instant of the limiter at which it is made, and how many microseconds it takes. -/
structure Request where
  context : Context
  user : Text
  cancelled : Bool
  deadline : Deadline
  time : Nat
  duration : Nat

/-- A part of an attempt. -/
abbrev Stage := EStateM Fault State

/-- A part whose failure counts as a rejection by a gate. -/
def gated {α : Type} (gate : Gate) (stage : Stage α) : Stage α := fun st =>
  match stage st with
  | .ok a after => .ok a after
  | .error fault after => .error fault (after.measure fun m => m.countRejection gate.name)

/-- A part that changes nothing. -/
def settled {α : Type} (answer : Except Fault α) : Stage α := fun st =>
  match answer with
  | .ok a => .ok a st
  | .error fault => .error fault st

/-! ## Gates -/

/-- Refuses an attempt that has been cancelled. -/
def checkCancelled (q : Request) : Except Fault Unit := if q.cancelled then .error (.exhausted .time) else .ok ()

/-- Refuses a user who may not execute the template. -/
def checkPermission (template : Template) (q : Request) : Stage Unit := fun st =>
  if st.permissions.holds q.user template.id .execute then .ok () st
  else .error (.permissionDenied Permission.execute.name) st

/-- Counts the attempt of the user, or refuses it. -/
def checkRate (q : Request) : Stage Unit := fun st =>
  match st.limiter.check q.user Configuration.renderAction q.time with
  | (.ok (), limiter) => .ok () { st with limiter }
  | (.error fault, limiter) => .error fault { st with limiter }

/-- The name of the cache of reports in the metrics. -/
def reportsName : Text := "validation"

/-- The name of the cache of inclusions in the metrics. -/
def inclusionsName : Text := "include"

/-- The result of finding a key. -/
def hit : Text := "hit"

/-- The result of not finding a key. -/
def miss : Text := "miss"

/-- The report of a text, from the cache if it has been inspected before. -/
def inspect (r : Renderer) (content : Text) : Stage Report := fun st =>
  if r.budget.maxContentBytes < Text.byteLength content then .error (.exhausted .size) st
  else
    -- the length is looked at before the cache is asked
    let key := Digest.ofText content
    match st.reports.lookup key with
    | (some report, reports) =>
      .ok report ({ st with reports }.measure fun m => m.countCacheEvent reportsName hit)
    | (none, reports) =>
      let looked := { st with reports }.measure fun m => m.countCacheEvent reportsName miss
      match r.validator.validateContent content with
      | .error fault => .error fault looked
      | .ok report => .ok report { looked with reports := looked.reports.store key report }

/-- Refuses a template of whose issues one blocks. -/
def refuseBlocking (report : Report) : Except Fault Unit :=
  match report.firstBlocking? with
  | some issue => .error (.violation issue.category)
  | none => .ok ()

/-- The text of a program, and what the inclusions it asked for have done to the cache. -/
def evaluate (r : Renderer) (q : Request) (context : CleanContext) (program : Program) : Stage Text := fun st =>
  let sandbox : Sandbox := ⟨r.budget, r.escape, context, q.deadline, r.loader⟩
  let (outcome, inclusions) := sandbox.evaluate st.inclusions program
  let after := { st with inclusions }.measure fun m =>
    (m.countCacheEvents inclusionsName hit (inclusions.found - st.inclusions.found).toNat).countCacheEvents
      inclusionsName miss (inclusions.missed - st.inclusions.missed).toNat
  match outcome.result with
  | .ok output => .ok output after
  | .error fault => .error fault after

/-- What is given out of a rendered text: a sanitised document, without personal data if the template says so. -/
def present (r : Renderer) (template : Template) (raw : Text) : Text :=
  let document := r.sanitizer.sanitize raw
  if template.masksPersonalData then PersonalData.mask document (r.validator.detector document) else document

/-- The gates in their order. -/
def execute (r : Renderer) (template : Template) (q : Request) : Stage Text := do
  -- an attempt that was cancelled is rejected by no gate
  settled (checkCancelled q)
  gated .permission (checkPermission template q)
  gated .rate (checkRate q)
  let report ← gated .validation (r.inspect template.content)
  gated .validation (settled (refuseBlocking report))
  let context ← gated .context (settled (CleanContext.ofContext r.validator template q.context))
  let program ← gated .reading
    (settled ((Program.ofSource r.budget.parseLimits template.content).mapError .ofRefusal))
  let raw ← gated .evaluation (r.evaluate q context program)
  return r.present template raw

/-! ## Beginning and end -/

/-- An attempt begins. -/
def begin (st : State) : State := st.measure fun m => { m with underWay := m.underWay.increment [] }

/-- The event of an attempt: the size of its text, or the code and the words of its fault. -/
def eventOf (user resource : Text) : Except Fault Text → Audit.Event
  | .ok output =>
    ⟨user, resource, Audit.successOutcome,
      "rendered ".toList ++ Text.ofNat (Text.byteLength output) ++ " bytes".toList⟩
  | .error fault => ⟨user, resource, fault.code.name, fault.message⟩

/-- An attempt ends. -/
def finish (user resource : Text) (duration : Nat) (answer : Except Fault Text) (st : State) : State :=
  let event := eventOf user resource answer
  let measured := st.measure fun m =>
    Metrics.Registry.countRender
      { m with underWay := m.underWay.decrement [], durations := m.durations.observe [] duration } event.outcome
  { measured with audit := measured.audit.emit event }

/-- The text of a template for a user, or the fault at the first gate that rejects it. -/
def render (r : Renderer) (st : State) (template : Template) (q : Request) : Except Fault Text × State :=
  match r.execute template q (begin st) with
  | .ok output after => (.ok output, finish q.user template.id q.duration (.ok output) after)
  | .error fault after => (.error fault, finish q.user template.id q.duration (.error fault) after)

/-- The text of the template of an id. A missing template ends the attempt before its first gate. -/
def renderById (r : Renderer) (st : State) (store : Template.Store) (id : Text) (q : Request) :
    Except Fault Text × State :=
  match store.find id with
  | .ok template => r.render st template q
  | .error fault => (.error fault, finish q.user id q.duration (.error fault) (begin st))

/-- The report of a template that is not rendered. -/
def validateTemplate (r : Renderer) (st : State) (template : Template) : Except Fault Report × State :=
  match r.inspect template.content st with
  | .ok report after => (.ok report, after)
  | .error fault after => (.error fault, after)

end Stencil.Renderer
