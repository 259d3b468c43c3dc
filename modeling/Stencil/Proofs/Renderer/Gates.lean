import Stencil.Proofs.Basic
import Stencil.Proofs.Policy.Queue
import Stencil.Proofs.Renderer.Caching

/-!
# Where an attempt ends

What rejects an attempt is said for each gate alone, of the state in which the attempt begins (`faultAt`). The attempt
ends with the fault of the first that rejects it (`rejection`), and with a text if there is none.

The attempt is cut in two: the stops up to the rate, behind each of which the state is known, and the gates behind it
(`deliver`), none of which touches the permissions or the stamps. What is written down of attempts is their `Ledger`;
no part of an attempt changes it, but a gate that rejects one counts the rejection (`Heeds`).

Main statement: how an attempt ends, and what it leaves of the permissions, the stamps and the caches
(`render_of_rejection`).
-/

namespace Stencil

open Inspection Policy Template Sandbox

namespace Renderer

variable {r : Renderer} {template : Template} {q : Request} {st between after : State} {α : Type}

/-! ## What rejects an attempt -/

/-- The fault of an answer that is one. -/
def faultOf : Except Fault α → Option Fault
  | .error fault => some fault
  | .ok _ => none

lemma isOk_eq_isNone_faultOf (answer : Except Fault α) : answer.isOk = (faultOf answer).isNone := by
  cases answer <;> rfl

/-- The report on a text in a state: the one that is kept under its digest, or else a new one. There is none on a text
that is too long. -/
def reportOn (r : Renderer) (st : State) (content : Text) : Except Fault Report :=
  if r.budget.maxContentBytes < Text.byteLength content then .error (.exhausted .size)
  else
    match (st.reports.lookup (Digest.ofText content)).1 with
    | some report => .ok report
    | none => r.validator.validateContent content

/-- The fault with which an attempt is rejected here if it comes so far: at the very beginning, where there is no gate
yet, or at a gate. -/
def faultAt (r : Renderer) (st : State) (template : Template) (q : Request) : Option Gate → Option Fault
  | none => if q.cancelled then some (.exhausted .time) else none
  | some .permission =>
    if st.permissions.holds q.user template.id .execute then none else some (.permissionDenied Permission.execute.name)
  | some .rate => faultOf (st.limiter.check q.user Configuration.renderAction q.time).1
  | some .validation =>
    match r.reportOn st template.content with
    | .error fault => some fault
    | .ok report => report.firstBlocking?.map fun issue => .violation issue.category
  | some .context => faultOf (CleanContext.ofContext r.validator template q.context)
  | some .reading => faultOf ((Program.ofSource r.budget.parseLimits template.content).mapError Fault.ofRefusal)
  | some .evaluation =>
    match CleanContext.ofContext r.validator template q.context,
      Program.ofSource r.budget.parseLimits template.content with
    | .ok context, .ok program => faultOf ((r.sandboxOf q context).evaluate st.inclusions program).1.result
    | _, _ => none

/-- What an attempt has to pass until it is counted. -/
def entry : List (Option Gate) := [none, some .permission, some .rate]

/-- What an attempt that has been counted has to pass. -/
def delivery : List (Option Gate) := [some .validation, some .context, some .reading, some .evaluation]

/-- The first of some stops with a fault, and its fault. -/
def firstRejection (fault : Option Gate → Option Fault) (stops : List (Option Gate)) : Option (Option Gate × Fault) :=
  stops.findSome? fun stop => (fault stop).map fun fault => (stop, fault)

/-- Where an attempt is rejected, and with which fault. -/
def rejection (r : Renderer) (st : State) (template : Template) (q : Request) : Option (Option Gate × Fault) :=
  firstRejection (r.faultAt st template q) (entry ++ delivery)

/-- The text of an attempt that nothing rejects: what the program of the template puts out, as a sanitised document,
with personal data masked if the template says so. -/
def Yields (r : Renderer) (st : State) (template : Template) (q : Request) (out : Text) : Prop :=
  ∃ context program raw, CleanContext.ofContext r.validator template q.context = .ok context ∧
    Program.ofSource r.budget.parseLimits template.content = .ok program ∧
    ((r.sandboxOf q context).evaluate st.inclusions program).1 = .completed raw ∧
    out = if template.masksPersonalData then
        PersonalData.mask (r.sanitizer.sanitize raw) (r.validator.detector (r.sanitizer.sanitize raw))
      else r.sanitizer.sanitize raw

section

variable {fault : Option Gate → Option Fault} {stop : Option Gate} {stops later : List (Option Gate)} {f : Fault}

lemma firstRejection_cons_of_none (h : fault stop = none) :
    firstRejection fault (stop :: stops) = firstRejection fault stops := by
  simp only [firstRejection, List.findSome?_cons, h, Option.map_none]

lemma firstRejection_cons_of_some (h : fault stop = some f) :
    firstRejection fault (stop :: stops) = some (stop, f) := by
  simp only [firstRejection, List.findSome?_cons, h, Option.map_some]

lemma firstRejection_append_of_none (h : firstRejection fault stops = none) :
    firstRejection fault (stops ++ later) = firstRejection fault later := by
  unfold firstRejection at h ⊢
  rw [List.findSome?_append, h, Option.none_or]

lemma firstRejection_append_of_some {found : Option Gate × Fault} (h : firstRejection fault stops = some found) :
    firstRejection fault (stops ++ later) = some found := by
  unfold firstRejection at h ⊢
  rw [List.findSome?_append, h, Option.some_or]

lemma firstRejection_eq_none_iff : firstRejection fault stops = none ↔ ∀ stop ∈ stops, fault stop = none := by
  simp [firstRejection]

lemma fault_of_firstRejection (h : firstRejection fault stops = some (stop, f)) : fault stop = some f := by
  obtain ⟨stop', -, hstop⟩ := List.exists_of_findSome?_eq_some h
  obtain ⟨f', hfault, hfound⟩ := Option.map_eq_some_iff.1 hstop
  obtain ⟨rfl, rfl⟩ := Prod.mk.inj hfound
  exact hfault

/-- Only the faults at the stops themselves matter. -/
lemma firstRejection_congr {fault' : Option Gate → Option Fault} (h : ∀ stop ∈ stops, fault stop = fault' stop) :
    firstRejection fault stops = firstRejection fault' stops := by
  induction stops with
  | nil => rfl
  | cons stop stops ih =>
    have hstop := h stop List.mem_cons_self
    have hrest := ih fun stop' hstop' => h stop' (List.mem_cons_of_mem _ hstop')
    cases hfault : fault stop with
    | none => rw [firstRejection_cons_of_none hfault, firstRejection_cons_of_none (hstop ▸ hfault), hrest]
    | some f => rw [firstRejection_cons_of_some hfault, firstRejection_cons_of_some (hstop ▸ hfault)]

end

/-! ## The ledger -/

/-- What is written down of attempts. -/
structure Ledger where
  renders : Metrics.Counters
  rejections : Metrics.Counters
  underWay : Metrics.Gauges
  durations : Metrics.Histograms
  audit : Audit.Sink

/-- What is written down of attempts in a state. -/
def State.ledger (st : State) : Ledger :=
  ⟨st.metrics.renders, st.metrics.rejections, st.metrics.underWay, st.metrics.durations, st.audit⟩

/-- A ledger behind a rejection. Only gates are counted. -/
def Ledger.rejectedAt (l : Ledger) : Option Gate → Ledger
  | some gate => { l with rejections := l.rejections.increment [("gate".toList, gate.name)] }
  | none => l

/-- Whether a part of an attempt writes nothing down. -/
def Calm (stage : Stage α) : Prop := ∀ st, (stateBehind (stage st)).ledger = st.ledger

lemma calm_settled (answer : Except Fault α) : Calm (settled answer) := by
  intro st
  unfold settled
  cases answer <;> rfl

/-! ## Parts in a row -/

section

variable {stage : Stage α} {β : Type} {next : α → Stage β} {gate : Gate} {a : α} {f : Fault}

lemma bind_of_ok (h : stage st = .ok a between) : (stage >>= next) st = next a between := by
  change EStateM.bind stage next st = _
  rw [EStateM.bind, h]

lemma bind_of_error (h : stage st = .error f after) : (stage >>= next) st = .error f after := by
  change EStateM.bind stage next st = _
  rw [EStateM.bind, h]

lemma gated_of_ok (h : stage st = .ok a between) : gated gate stage st = .ok a between := by
  unfold gated
  rw [h]

lemma gated_of_error (h : stage st = .error f after) :
    gated gate stage st = .error f (after.measure fun m => m.countRejection gate.name) := by
  unfold gated
  rw [h]

/-- Two parts at one gate are a part at that gate. -/
lemma gated_bind (gate : Gate) (stage : Stage α) (next : α → Stage β) :
    gated gate (stage >>= next) = gated gate stage >>= fun a => gated gate (next a) := by
  funext st
  cases hstage : stage st with
  | ok a between =>
    rw [bind_of_ok (gated_of_ok hstage)]
    unfold gated
    rw [bind_of_ok hstage]
  | error f after =>
    rw [bind_of_error (gated_of_error hstage)]
    exact gated_of_error (bind_of_error hstage)

end

/-! ## The gates behind the rate -/

/-- A template inspected, and refused if one of its issues blocks. -/
def examine (r : Renderer) (template : Template) : Stage Unit := do
  let report ← r.inspect template.content
  settled (refuseBlocking report)

/-- The gates that an attempt passes once it has been counted. -/
def deliver (r : Renderer) (template : Template) (q : Request) : Stage Text := do
  gated .validation (r.examine template)
  let context ← gated .context (settled (CleanContext.ofContext r.validator template q.context))
  let program ← gated .reading
    (settled ((Program.ofSource r.budget.parseLimits template.content).mapError .ofRefusal))
  let raw ← gated .evaluation (r.evaluate q context program)
  return r.present template raw

/-- The gates up to the rate, and then all that is delivered behind them. -/
lemma execute_eq_deliver (r : Renderer) (template : Template) (q : Request) :
    r.execute template q = (do
      settled (checkCancelled q)
      gated .permission (checkPermission template q)
      gated .rate (checkRate q)
      r.deliver template q) := by
  rw [execute, deliver, examine, gated_bind]
  simp only [bind_assoc]

/-- Whether a part of an attempt that is to pass some stops ends as they say: with the fault of the first that rejects
the attempt, which is written down, or else with a text that is right. -/
def Heeds (fault : Option Gate → Option Fault) (stops : List (Option Gate)) (right : Text → Prop) (stage : Stage Text)
    (st : State) : Prop :=
  match firstRejection fault stops with
  | some (stop, f) => answerOf (stage st) = .error f ∧ (stateBehind (stage st)).ledger = st.ledger.rejectedAt stop
  | none => (∃ out, answerOf (stage st) = .ok out ∧ right out) ∧ (stateBehind (stage st)).ledger = st.ledger

section

variable {stage : Stage α} {next : α → Stage Text} {gate : Gate} {fault : Option Gate → Option Fault}
  {stops : List (Option Gate)} {right : Text → Prop}

/-- A part behind a gate heeds the stops in their order if it fails as the gate says and all that follows
heeds the later ones. -/
lemma heeds_gated (hcalm : Calm stage) (hfault : faultOf (answerOf (stage st)) = fault (some gate))
    (hnext : ∀ a between, stage st = .ok a between → Heeds fault stops right (next a) between) :
    Heeds fault (some gate :: stops) right (gated gate stage >>= next) st := by
  -- the part itself writes nothing down, so only the gate around it can have
  have hledger := hcalm st
  unfold Heeds
  cases hstage : stage st with
  | ok a between =>
    rw [hstage] at hfault hledger
    have hpassed : fault (some gate) = none := hfault.symm
    have hbetween : between.ledger = st.ledger := hledger
    have hrest := hnext a between hstage
    rw [Heeds, hbetween] at hrest
    rw [firstRejection_cons_of_none hpassed, bind_of_ok (gated_of_ok hstage)]
    exact hrest
  | error f after =>
    rw [hstage] at hfault hledger
    have hrejects : fault (some gate) = some f := hfault.symm
    have hafter : after.ledger = st.ledger := hledger
    rw [firstRejection_cons_of_some hrejects, bind_of_error (gated_of_error hstage)]
    refine ⟨rfl, ?_⟩
    rw [← hafter]
    rfl

end

lemma settled_eq_ok_iff {answer : Except Fault α} {a : α} :
    settled answer st = .ok a between ↔ answer = .ok a ∧ st = between := by
  unfold settled
  cases answer <;> simp

lemma result_eq_ok_iff {outcome : Outcome} {output : Text} :
    outcome.result = .ok output ↔ outcome = .completed output := by
  cases outcome <;> simp [Outcome.result]

lemma answerOf_settled (answer : Except Fault α) (st : State) : answerOf (settled answer st) = answer := by
  unfold settled
  cases answer <;> rfl

/-! ### Inspection -/

/-- What an inspection answers does not hang on the counters that it changes. -/
lemma answerOf_inspect (r : Renderer) (content : Text) (st : State) :
    answerOf (r.inspect content st) = r.reportOn st content := by
  unfold inspect reportOn
  split
  · rfl
  · dsimp only
    rcases st.reports.lookup (Digest.ofText content) with ⟨kept, reports⟩
    cases kept with
    | some report => rfl
    | none =>
      dsimp only
      cases r.validator.validateContent content <;> rfl

/-- An inspection touches the cache of reports and what is counted of it, and nothing else. -/
lemma touched_by_inspect (r : Renderer) (content : Text) (st : State) :
    ∃ reports cacheEvents,
      stateBehind (r.inspect content st) = { st with reports, metrics := { st.metrics with cacheEvents } } := by
  unfold inspect
  split
  · exact ⟨st.reports, st.metrics.cacheEvents, rfl⟩
  · dsimp only
    rcases st.reports.lookup (Digest.ofText content) with ⟨kept, reports⟩
    cases kept with
    | some report => exact ⟨_, _, rfl⟩
    | none =>
      dsimp only
      cases r.validator.validateContent content <;> exact ⟨_, _, rfl⟩

/-- To examine a template is to inspect its text and to refuse a report that blocks. -/
lemma examine_eq (r : Renderer) (template : Template) (st : State) :
    r.examine template st =
      match r.inspect template.content st with
      | .ok report between => settled (refuseBlocking report) between
      | .error f after => .error f after := by
  rw [examine]
  cases hinspect : r.inspect template.content st with
  | ok report between => rw [bind_of_ok hinspect]
  | error f after => rw [bind_of_error hinspect]

/-- Refusing a report changes nothing behind the inspection. -/
lemma state_examine (r : Renderer) (template : Template) (st : State) :
    stateBehind (r.examine template st) = stateBehind (r.inspect template.content st) := by
  rw [examine_eq]
  cases r.inspect template.content st with
  | ok report between =>
    dsimp only
    unfold settled
    cases refuseBlocking report <;> rfl
  | error f after => rfl

lemma calm_examine (r : Renderer) (template : Template) : Calm (r.examine template) := by
  intro st
  obtain ⟨reports, cacheEvents, hstate⟩ := touched_by_inspect r template.content st
  rw [state_examine, hstate]
  rfl

/-- Examining a template fails with the fault at the gate of validation. -/
lemma faultOf_examine (r : Renderer) (template : Template) (q : Request) (st : State) :
    faultOf (answerOf (r.examine template st)) = r.faultAt st template q (some .validation) := by
  have hreport := answerOf_inspect r template.content st
  rw [examine_eq, faultAt, ← hreport]
  cases r.inspect template.content st with
  | ok report between =>
    show faultOf (answerOf (settled (refuseBlocking report) between)) =
      report.firstBlocking?.map fun issue => .violation issue.category
    rw [answerOf_settled, refuseBlocking]
    cases report.firstBlocking? <;> rfl
  | error f after => rfl

/-! ### Evaluation -/

lemma touched_by_countCacheEvents (m : Metrics.Registry) (cache result : Text) (n : Nat) :
    ∃ cacheEvents, m.countCacheEvents cache result n = { m with cacheEvents } := by
  induction n generalizing m with
  | zero => exact ⟨m.cacheEvents, rfl⟩
  | succ n ih => exact ih (m.countCacheEvent cache result)

/-- What an evaluation answers is the result of the sandbox. -/
lemma answerOf_evaluate (r : Renderer) (q : Request) (context : CleanContext) (program : Program) (st : State) :
    answerOf (r.evaluate q context program st) =
      ((r.sandboxOf q context).evaluate st.inclusions program).1.result := by
  unfold evaluate
  dsimp only
  rw [sandboxOf]
  split
  · rename_i output hresult
    exact hresult.symm
  · rename_i fault hresult
    exact hresult.symm

/-- An evaluation touches the cache of inclusions and what is counted of it, and nothing else. -/
lemma touched_by_evaluate (r : Renderer) (q : Request) (context : CleanContext) (program : Program) (st : State) :
    ∃ inclusions cacheEvents,
      stateBehind (r.evaluate q context program st) =
        { st with inclusions, metrics := { st.metrics with cacheEvents } } := by
  let inclusions := ((r.sandboxOf q context).evaluate st.inclusions program).2
  obtain ⟨hitEvents, hhits⟩ :=
    touched_by_countCacheEvents st.metrics inclusionsName hit (inclusions.found - st.inclusions.found).toNat
  obtain ⟨cacheEvents, hmisses⟩ :=
    touched_by_countCacheEvents { st.metrics with cacheEvents := hitEvents } inclusionsName miss
      (inclusions.missed - st.inclusions.missed).toNat
  have hmetrics :
      (st.metrics.countCacheEvents inclusionsName hit (inclusions.found - st.inclusions.found).toNat).countCacheEvents
        inclusionsName miss (inclusions.missed - st.inclusions.missed).toNat = { st.metrics with cacheEvents } := by
    rw [hhits, hmisses]
  refine ⟨inclusions, cacheEvents, ?_⟩
  rw [← hmetrics]
  unfold evaluate
  dsimp only
  split <;> rfl

lemma calm_evaluate (r : Renderer) (q : Request) (context : CleanContext) (program : Program) :
    Calm (r.evaluate q context program) := by
  intro st
  obtain ⟨inclusions, cacheEvents, hstate⟩ := touched_by_evaluate r q context program st
  rw [hstate]
  rfl

/-- The gates behind the rate, in a state with the caches that the attempt has begun with. -/
lemma heeds_deliver (r : Renderer) (template : Template) (q : Request) (st : State) :
    Heeds (r.faultAt st template q) delivery (r.Yields st template q) (r.deliver template q) st := by
  refine heeds_gated (calm_examine r template) (faultOf_examine r template q st) fun _ examined hexamine => ?_
  -- what the inspection has stored is not looked at again, and the later gates but the last change nothing
  have hinclusions : examined.inclusions = st.inclusions := by
    obtain ⟨reports, cacheEvents, htouched⟩ := touched_by_inspect r template.content st
    have hstate := state_examine r template st
    rw [hexamine, htouched] at hstate
    have hexamined : examined = { st with reports, metrics := { st.metrics with cacheEvents } } := hstate
    rw [hexamined]
  refine heeds_gated (calm_settled _) (by rw [answerOf_settled]; rfl) fun context between hclean => ?_
  obtain ⟨hcontext, rfl⟩ := settled_eq_ok_iff.1 hclean
  refine heeds_gated (calm_settled _) (by rw [answerOf_settled]; rfl) fun program between hread => ?_
  obtain ⟨hprogram, rfl⟩ := settled_eq_ok_iff.1 hread
  have hsource : Program.ofSource r.budget.parseLimits template.content = .ok program := mapError_eq_ok_iff.1 hprogram
  refine heeds_gated (calm_evaluate r q context program) ?_ fun raw between hraw => ?_
  · rw [answerOf_evaluate, faultAt, hcontext, hsource, hinclusions]
  · have hanswer := answerOf_evaluate r q context program examined
    rw [hraw, hinclusions] at hanswer
    have hcompleted := result_eq_ok_iff.1 hanswer.symm
    exact ⟨⟨_, rfl, context, program, raw, hcontext, hsource, hcompleted, rfl⟩, rfl⟩

/-! ## The stops up to the rate -/

/-- The state behind the rate of an attempt that comes to it. -/
def State.rated (st : State) (q : Request) : State :=
  { st with limiter := (st.limiter.check q.user Configuration.renderAction q.time).2 }

/-- The state behind an attempt that is rejected at a stop up to the rate. -/
def State.turnedAway (st : State) (q : Request) : Option Gate → State
  | none => st
  | some gate => (if gate = .rate then st.rated q else st).measure fun m => m.countRejection gate.name

/-- Being turned away adds to the ledger the gate that has rejected, if it was one. -/
lemma ledger_turnedAway (st : State) (q : Request) (stop : Option Gate) :
    (st.turnedAway q stop).ledger = st.ledger.rejectedAt stop := by
  cases stop with
  | none => rfl
  | some gate =>
    unfold State.turnedAway
    dsimp only
    split <;> rfl

/-- The end of a part that is rejected by a fault, if there is one. -/
def decided (fault : Option Fault) (st : State) : EStateM.Result Fault State Unit :=
  match fault with
  | none => .ok () st
  | some f => .error f st

lemma checkCancelled_eq (r : Renderer) (template : Template) (q : Request) (st : State) :
    settled (checkCancelled q) st = decided (r.faultAt st template q none) st := by
  unfold checkCancelled faultAt
  split <;> rfl

/-- The stop at the permission is decided by the fault there, and changes nothing. -/
lemma checkPermission_eq (r : Renderer) (template : Template) (q : Request) (st : State) :
    checkPermission template q st = decided (r.faultAt st template q (some .permission)) st := by
  unfold checkPermission faultAt
  dsimp only
  split <;> rfl

lemma checkRate_eq (r : Renderer) (template : Template) (q : Request) (st : State) :
    checkRate q st = decided (r.faultAt st template q (some .rate)) (st.rated q) := by
  unfold checkRate faultAt State.rated
  rcases st.limiter.check q.user Configuration.renderAction q.time with ⟨answer, limiter⟩
  cases answer <;> rfl

/-- What an attempt does up to the rate. -/
lemma execute_eq (r : Renderer) (template : Template) (q : Request) (st : State) :
    r.execute template q st =
      match firstRejection (r.faultAt st template q) entry with
      | none => r.deliver template q (st.rated q)
      | some (stop, fault) => .error fault (st.turnedAway q stop) := by
  have hcancelled := checkCancelled_eq r template q st
  have hpermission := checkPermission_eq r template q st
  have hrate := checkRate_eq r template q st
  rw [execute_eq_deliver, entry]
  -- one stop after the other: a fault ends the attempt, and without one the state in front of the next stop is known
  cases hnone : r.faultAt st template q none with
  | some fault =>
    rw [hnone] at hcancelled
    rw [firstRejection_cons_of_some hnone]
    exact bind_of_error hcancelled
  | none =>
    rw [hnone] at hcancelled
    rw [firstRejection_cons_of_none hnone, bind_of_ok hcancelled]
    cases hheld : r.faultAt st template q (some .permission) with
    | some fault =>
      rw [hheld] at hpermission
      rw [firstRejection_cons_of_some hheld]
      exact bind_of_error (gated_of_error hpermission)
    | none =>
      rw [hheld] at hpermission
      rw [firstRejection_cons_of_none hheld, bind_of_ok (gated_of_ok hpermission)]
      cases hfree : r.faultAt st template q (some .rate) with
      | some fault =>
        rw [hfree] at hrate
        rw [firstRejection_cons_of_some hfree]
        exact bind_of_error (gated_of_error hrate)
      | none =>
        rw [hfree] at hrate
        rw [firstRejection_cons_of_none hfree]
        exact bind_of_ok (gated_of_ok hrate)

/-- What rejects an attempt behind the rate does not depend on the limiter. -/
lemma faultAt_rated {stop : Option Gate} (h : stop ∈ delivery) :
    r.faultAt (st.rated q) template q stop = r.faultAt st template q stop := by
  unfold delivery at h
  simp only [List.mem_cons, List.not_mem_nil, or_false] at h
  rcases h with rfl | rfl | rfl | rfl <;> rfl

/-- Every attempt ends at the first stop that rejects it. -/
lemma heeds_execute (r : Renderer) (template : Template) (q : Request) (st : State) :
    Heeds (r.faultAt st template q) (entry ++ delivery) (r.Yields st template q) (r.execute template q) st := by
  have hexecute := execute_eq r template q st
  unfold Heeds
  cases hentry : firstRejection (r.faultAt st template q) entry with
  | none =>
    -- the gates behind the rate see another limiter, to which none of them looks
    rw [hentry] at hexecute
    have hdeliver := heeds_deliver r template q (st.rated q)
    rw [Heeds, firstRejection_congr fun stop hstop => faultAt_rated hstop] at hdeliver
    rw [firstRejection_append_of_none hentry, hexecute]
    exact hdeliver
  | some found =>
    obtain ⟨stop, fault⟩ := found
    rw [hentry] at hexecute
    rw [firstRejection_append_of_some hentry, hexecute]
    exact ⟨rfl, ledger_turnedAway st q stop⟩

/-! ## What an attempt leaves behind -/

/-- Behind the rate, neither the permissions nor the limiter is touched. -/
lemma keeps_deliver (r : Renderer) (template : Template) (q : Request) (permissions : Permissions)
    (limiter : RateLimiter) :
    Keeps (fun st => st.permissions = permissions ∧ st.limiter = limiter) (r.deliver template q) := by
  have hmeasure : ∀ (st : State) (change : Metrics.Registry → Metrics.Registry),
      st.permissions = permissions ∧ st.limiter = limiter →
        (st.measure change).permissions = permissions ∧ (st.measure change).limiter = limiter := fun _ _ h => h
  refine keeps_bind (keeps_gated hmeasure ?_ _) fun _ => ?_
  · intro st hst
    obtain ⟨reports, cacheEvents, hstate⟩ := touched_by_inspect r template.content st
    rw [state_examine, hstate]
    exact hst
  refine keeps_bind (keeps_gated hmeasure (keeps_settled _ _) _) fun context => ?_
  refine keeps_bind (keeps_gated hmeasure (keeps_settled _ _) _) fun program => ?_
  refine keeps_bind (keeps_gated hmeasure ?_ _) fun raw => fun _ hst => hst
  intro st hst
  obtain ⟨inclusions, cacheEvents, hstate⟩ := touched_by_evaluate r q context program st
  rw [hstate]
  exact hst

/-- A render is an execution with a beginning and an end around it. -/
lemma render_eq (r : Renderer) (st : State) (template : Template) (q : Request) :
    r.render st template q =
      (answerOf (r.execute template q (begin st)),
        finish q.user template.id q.duration (answerOf (r.execute template q (begin st)))
          (stateBehind (r.execute template q (begin st)))) := by
  unfold render
  cases r.execute template q (begin st) <;> rfl

/-- A render answers with the fault at the first stop that rejects it, and else with a text. -/
lemma answer_render (r : Renderer) (st : State) (template : Template) (q : Request) :
    match r.rejection st template q with
    | some (_, fault) => (r.render st template q).1 = .error fault
    | none => ∃ out, (r.render st template q).1 = .ok out ∧ r.Yields st template q out := by
  have hexecute := heeds_execute r template q (begin st)
  -- the beginning is measured only
  have hbegin : r.rejection (begin st) template q = r.rejection st template q := rfl
  rw [Heeds, ← rejection, hbegin] at hexecute
  rw [render_eq]
  cases hrejection : r.rejection st template q with
  | none =>
    rw [hrejection] at hexecute
    exact hexecute.1
  | some found =>
    rw [hrejection] at hexecute
    exact hexecute.1

/-- The state behind an attempt that comes past the rate. -/
lemma policed_render (hentry : firstRejection (r.faultAt st template q) entry = none) :
    (r.render st template q).2.permissions = st.permissions ∧
      (r.render st template q).2.limiter = (st.limiter.check q.user Configuration.renderAction q.time).2 := by
  have hexecute := execute_eq r template q (begin st)
  have hbegin : firstRejection (r.faultAt (begin st) template q) entry = none := hentry
  rw [hbegin] at hexecute
  have hdeliver := keeps_deliver r template q st.permissions
    (st.limiter.check q.user Configuration.renderAction q.time).2 ((begin st).rated q) ⟨rfl, rfl⟩
  rw [render_eq, hexecute]
  exact hdeliver

/-- The state behind an attempt that comes no further than to the rate. -/
lemma turnedAway_render {stop : Option Gate} {fault : Fault}
    (hentry : firstRejection (r.faultAt st template q) entry = some (stop, fault)) :
    (r.render st template q).2.permissions = st.permissions ∧ (r.render st template q).2.reports = st.reports ∧
      (r.render st template q).2.inclusions = st.inclusions ∧
      (r.render st template q).2.limiter =
        if stop = some .rate then (st.limiter.check q.user Configuration.renderAction q.time).2 else st.limiter := by
  have hexecute := execute_eq r template q (begin st)
  have hbegin : firstRejection (r.faultAt (begin st) template q) entry = some (stop, fault) := hentry
  rw [hbegin] at hexecute
  rw [render_eq, hexecute]
  cases stop with
  | none => exact ⟨rfl, rfl, rfl, rfl⟩
  | some gate => cases gate <;> exact ⟨rfl, rfl, rfl, rfl⟩

/-- An attempt ends with the fault of the first stop that rejects it, and otherwise with the text that its program
yields. It never changes the permissions. An attempt that is rejected up to the rate touches no cache and leaves no
stamp; any other leaves one stamp of its user, whatever rejects it later, unless renders are free. What is kept of
earlier inspections makes no difference to where an attempt is rejected. -/
theorem render_of_rejection (r : Renderer) (st : State) (template : Template) (q : Request) :
    let answer := (r.render st template q).1
    let after := (r.render st template q).2
    let action := Configuration.renderAction
    (match r.rejection st template q with
      | some (_, fault) => answer = .error fault
      | none => ∃ out, answer = .ok out ∧ r.Yields st template q out) ∧
    after.permissions = st.permissions ∧
    (match firstRejection (r.faultAt st template q) entry with
      | some (stop, _) => after.reports = st.reports ∧ after.inclusions = st.inclusions ∧
          (stop ≠ some .rate → after.limiter = st.limiter) ∧
          ∀ user' action', after.limiter.stamps user' action' <:+ st.limiter.stamps user' action'
      | none => (st.limiter.limits action = [] → after.limiter = st.limiter) ∧
          (st.limiter.limits action ≠ [] → after.limiter.stamps q.user action =
            Stamps.prune (st.limiter.stamps q.user action) q.time (RateLimiter.horizon (st.limiter.limits action)) ++
              [q.time]) ∧
          ∀ user' action', (user', action') ≠ (q.user, action) →
            after.limiter.stamps user' action' = st.limiter.stamps user' action') ∧
    ∀ seen, r.Reached st seen → Collisionless (template.content :: seen) →
      r.reportOn st template.content = r.inspectAfresh template.content := by
  intro answer after action
  have hreport : ∀ seen, r.Reached st seen → Collisionless (template.content :: seen) →
      r.reportOn st template.content = r.inspectAfresh template.content := by
    intro seen hreached hdistinct
    rw [← answerOf_inspect]
    exact hreached.sound.inspect_eq hdistinct
  have hanswer := answer_render r st template q
  cases hentry : firstRejection (r.faultAt st template q) entry with
  | none =>
    -- the rate is one of the stops that let the attempt through
    obtain ⟨hpermissions, hlimiter⟩ := policed_render hentry
    have hrate : r.faultAt st template q (some .rate) = none :=
      firstRejection_eq_none_iff.1 hentry (some .rate) (by decide)
    have hadmitted : (st.limiter.check q.user action q.time).1.isOk = true := by
      rw [isOk_eq_isNone_faultOf]
      exact Option.isNone_iff_eq_none.2 hrate
    refine ⟨hanswer, hpermissions, ⟨fun hfree => ?_, fun hlimits => ?_, fun user' action' hother => ?_⟩, hreport⟩
    · exact hlimiter.trans (congrArg Prod.snd (st.limiter.check_of_limits_eq_nil q.user action q.time hfree))
    · rw [hlimiter]
      exact st.limiter.stamps_check_of_isOk q.user action q.time hadmitted hlimits
    · rw [hlimiter]
      exact st.limiter.stamps_check_of_ne q.user action q.time hother
  | some found =>
    obtain ⟨stop, fault⟩ := found
    obtain ⟨hpermissions, hreports, hinclusions, hlimiter⟩ := turnedAway_render hentry
    refine ⟨hanswer, hpermissions, ⟨hreports, hinclusions, fun hstop => ?_, fun user' action' => ?_⟩, hreport⟩
    · rw [hlimiter, if_neg hstop]
    · rw [hlimiter]
      split
      · rename_i hrate
        have hfault : r.faultAt st template q (some .rate) = some fault := hrate ▸ fault_of_firstRejection hentry
        have hrefused : (st.limiter.check q.user action q.time).1.isOk = false := by
          rw [isOk_eq_isNone_faultOf]
          exact Option.isNone_eq_false_iff.2 (Option.isSome_of_eq_some hfault)
        exact st.limiter.stamps_check_suffix q.user action q.time hrefused user' action'
      · exact List.suffix_rfl

end Renderer

end Stencil
