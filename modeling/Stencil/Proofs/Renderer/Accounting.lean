import Mathlib.Data.List.Forall2
import Stencil.Proofs.Metrics.Counting
import Stencil.Proofs.Renderer.Gates

/-!
# What is written down of attempts

Every attempt leaves one event in the audit and is counted once, by its outcome, and once more by the gate that rejected
it if there is one. So after any number of attempts all sums agree with each other and with the audit
(`accounts_of_logged`).

What one attempt does to the ledger is said once (`ledger_render`). A ledger that balances against a list of attempts
balances against one attempt more (`Ledger.Balances.concat`).
-/

namespace Stencil.Renderer

open Template

variable {r : Renderer} {st : State} {template : Template} {q : Request}

lemma gate_name_injective : Function.Injective Gate.name := by
  intro gate other h
  cases gate <;> cases other <;> first | rfl | exact absurd h (by decide)

/-! ## Attempts -/

/-- An attempt that has come to its end: who asked for what, the answer, whether it came to no gate at all, and the gate
that rejected it. -/
structure Entry where
  user : Text
  resource : Text
  answer : Except Fault Text
  ungated : Bool
  gate : Option Gate

namespace Entry

/-- The attempt to render a template. One that had been cancelled comes to no gate. -/
def ofRender (r : Renderer) (st : State) (template : Template) (q : Request) : Entry :=
  ⟨q.user, template.id, (r.render st template q).1, q.cancelled, (r.rejection st template q).bind Prod.fst⟩

/-- The attempt to render a template that is missing, so that it comes to no gate. -/
def ofMiss (id : Text) (q : Request) (fault : Fault) : Entry := ⟨q.user, id, .error fault, true, none⟩

/-- How an attempt has ended: in success, or with the code of a fault. -/
def outcome (e : Entry) : Text :=
  match e.answer with
  | .ok _ => Audit.successOutcome
  | .error fault => fault.code.name

/-- Whether a gate should have rejected an attempt: it has failed, and not in front of all gates. -/
def failedAtGate (e : Entry) : Bool := !e.answer.isOk && !e.ungated

/-- What the audit is told of an attempt. -/
def event (e : Entry) : Audit.Event := eventOf e.user e.resource e.answer

lemma outcome_event (e : Entry) : e.event.outcome = e.outcome := by
  unfold event eventOf outcome
  cases e.answer <;> rfl

lemma user_event (e : Entry) : e.event.user = e.user := by
  unfold event eventOf
  cases e.answer <;> rfl

lemma resource_event (e : Entry) : e.event.resource = e.resource := by
  unfold event eventOf
  cases e.answer <;> rfl

end Entry

/-! ## The ledger of one attempt -/

namespace Ledger

/-- A ledger behind the beginning of an attempt. -/
def begun (l : Ledger) : Ledger := { l with underWay := l.underWay.increment [] }

/-- A ledger behind the end of an attempt that took some time. -/
def ended (l : Ledger) (e : Entry) (duration : Nat) : Ledger where
  renders := l.renders.increment [("outcome".toList, e.outcome)]
  rejections := l.rejections
  underWay := l.underWay.decrement []
  durations := l.durations.observe [] duration
  audit := l.audit.emit e.event

/-- A ledger behind an attempt. -/
def record (l : Ledger) (e : Entry) (duration : Nat) : Ledger := (l.begun.rejectedAt e.gate).ended e duration

end Ledger

/-- To finish an attempt enters it in the ledger. -/
lemma ledger_finish (e : Entry) (duration : Nat) (st : State) :
    (finish e.user e.resource duration e.answer st).ledger = st.ledger.ended e duration := by
  have houtcome : (eventOf e.user e.resource e.answer).outcome = e.outcome := e.outcome_event
  unfold finish Ledger.ended
  rw [← houtcome]
  rfl

/-- A render writes down its own attempt. -/
theorem ledger_render (r : Renderer) (st : State) (template : Template) (q : Request) :
    (r.render st template q).2.ledger = st.ledger.record (.ofRender r st template q) q.duration := by
  have hexecute := heeds_execute r template q (begin st)
  have hbegin : r.rejection (begin st) template q = r.rejection st template q := rfl
  have hbehind : (stateBehind (r.execute template q (begin st))).ledger =
      st.ledger.begun.rejectedAt (Entry.ofRender r st template q).gate := by
    rw [Heeds, ← rejection, hbegin] at hexecute
    unfold Entry.ofRender
    cases hrejection : r.rejection st template q with
    | none =>
      rw [hrejection] at hexecute
      exact hexecute.2
    | some found =>
      rw [hrejection] at hexecute
      exact hexecute.2
  have hfinish := ledger_finish (.ofRender r st template q) q.duration (stateBehind (r.execute template q (begin st)))
  rw [hbehind] at hfinish
  rw [Ledger.record, ← hfinish]
  unfold Entry.ofRender
  rw [render_eq]

/-- A miss writes down its own attempt. -/
lemma ledger_miss {store : Template.Store} {id : Text} {fault : Fault} (h : store.find id = .error fault)
    (st : State) (q : Request) :
    (r.renderById st store id q).2.ledger = st.ledger.record (.ofMiss id q fault) q.duration := by
  unfold renderById
  rw [h]
  exact ledger_finish (.ofMiss id q fault) q.duration (begin st)

/-- A render is rejected in front of all gates if it has been cancelled. -/
lemma isSome_eq_not_cancelled {stop : Option Gate} {fault : Fault}
    (h : r.rejection st template q = some (stop, fault)) : stop.isSome = !q.cancelled := by
  have hstop := fault_of_firstRejection h
  cases hcancelled : q.cancelled with
  | true =>
    have hnone : r.faultAt st template q none = some (.exhausted .time) := by rw [faultAt, if_pos hcancelled]
    have hfirst : r.rejection st template q = some (none, .exhausted .time) := firstRejection_cons_of_some hnone
    rw [(Prod.mk.inj (Option.some.inj (h.symm.trans hfirst))).1]
    rfl
  | false =>
    cases stop with
    | none =>
      rw [faultAt, if_neg (by simp [hcancelled])] at hstop
      exact absurd hstop.symm (Option.some_ne_none fault)
    | some gate => rfl

/-- A render is rejected by a gate if it fails and has not been cancelled. -/
lemma isSome_gate_ofRender (r : Renderer) (st : State) (template : Template) (q : Request) :
    (Entry.ofRender r st template q).gate.isSome = (Entry.ofRender r st template q).failedAtGate := by
  have hanswer := answer_render r st template q
  unfold Entry.failedAtGate Entry.ofRender
  dsimp only
  cases hrejection : r.rejection st template q with
  | none =>
    rw [hrejection] at hanswer
    obtain ⟨out, hout, -⟩ := hanswer
    rw [hout]
    rfl
  | some found =>
    obtain ⟨stop, fault⟩ := found
    rw [hrejection] at hanswer
    have hfailed : (r.render st template q).1 = .error fault := hanswer
    rw [hfailed, Option.bind_some, isSome_eq_not_cancelled hrejection]
    rfl

/-! ## Ledgers that balance -/

/-- Whether a ledger holds what some attempts have written down, and nothing else. -/
structure Ledger.Balances (sink : Audit.Sink) (log : List Entry) (l : Ledger) : Prop where
  renders : l.renders = .ofLabels (log.map fun e => [("outcome".toList, e.outcome)])
  rejections : l.rejections = .ofLabels ((log.filterMap Entry.gate).map fun gate => [("gate".toList, gate.name)])
  underWay : l.underWay.value [] = 0
  durations : l.durations.count [] = UInt64.ofNat log.length
  audit : l.audit = (log.map Entry.event).foldl Audit.Sink.emit sink

namespace Ledger.Balances

variable {sink : Audit.Sink} {log : List Entry} {l : Ledger}

/-- Before any attempt. -/
lemma start (hmetrics : st.metrics = .empty) : st.ledger.Balances st.audit [] := by
  unfold State.ledger
  rw [hmetrics]
  exact ⟨rfl, rfl, rfl, rfl, rfl⟩

/-- Every attempt is written down as one more. -/
theorem concat (h : l.Balances sink log) (e : Entry) (duration : Nat) :
    (l.record e duration).Balances sink (log ++ [e]) := by
  -- a rejection is the only thing that depends on the gate
  have hgate : l.begun.rejectedAt e.gate = { l.begun with rejections := (l.begun.rejectedAt e.gate).rejections } := by
    cases e.gate <;> rfl
  have hrejections : (l.begun.rejectedAt e.gate).rejections =
      .ofLabels (((log ++ [e]).filterMap Entry.gate).map fun gate => [("gate".toList, gate.name)]) := by
    rw [List.filterMap_append, List.map_append]
    cases hcases : e.gate with
    | none =>
      rw [List.filterMap_cons_none hcases, List.filterMap_nil, List.map_nil, List.append_nil, ← h.rejections]
      rfl
    | some gate =>
      rw [List.filterMap_cons_some hcases, List.filterMap_nil, List.map_singleton, Metrics.Counters.ofLabels_concat,
        ← h.rejections]
      rfl
  rw [record, hgate]
  constructor
  case renders =>
    rw [List.map_append, List.map_singleton, Metrics.Counters.ofLabels_concat, ← h.renders]
    rfl
  case rejections => exact hrejections
  case underWay =>
    show ((l.underWay.increment []).decrement []).value [] = 0
    rw [Metrics.Gauges.value_decrement_increment, h.underWay]
  case durations =>
    show (l.durations.observe [] duration).count [] = UInt64.ofNat (log ++ [e]).length
    rw [Metrics.Histograms.count_observe, h.durations, List.length_append, UInt64.ofNat_add]
    rfl
  case audit =>
    rw [List.map_append, List.foldl_append, ← h.audit]
    rfl

/-- Each outcome is counted as often as it occurs. -/
lemma value_renders (h : l.Balances sink log) (outcome : Text) :
    l.renders.value [("outcome".toList, outcome)] = UInt64.ofNat (log.countP fun e => e.outcome = outcome) := by
  rw [h.renders, Metrics.Counters.value_ofLabels, List.countP_map]
  congr 1
  refine List.countP_congr fun e _ => ?_
  simp [Metrics.Labels.key_singleton]

/-- Each gate is counted as often as it has rejected an attempt. -/
lemma value_rejections (h : l.Balances sink log) (gate : Gate) :
    l.rejections.value [("gate".toList, gate.name)] = UInt64.ofNat (log.countP fun e => e.gate = some gate) := by
  rw [h.rejections, Metrics.Counters.value_ofLabels, List.countP_map, List.countP_filterMap]
  congr 1
  refine List.countP_congr fun e _ => ?_
  cases hgate : e.gate with
  | none => simp
  | some other => simp [Metrics.Labels.key_singleton, gate_name_injective.eq_iff]

end Ledger.Balances

/-! ## Everything that a renderer does -/

/-- The states of a renderer with metrics and an audit of its own, and the attempts that have come to their end. The
files may be different ones for each attempt. -/
inductive Logged (r : Renderer) (sink : Audit.Sink) : State → List Entry → Prop where
  | start (st : State) (hmetrics : st.metrics = .empty) (haudit : st.audit = sink) : Logged r sink st []
  | render {st : State} {log : List Entry} (h : Logged r sink st log) (disk : Disk) (template : Template)
      (q : Request) :
      Logged r sink ((r.on disk).render st template q).2 (log ++ [.ofRender (r.on disk) st template q])
  | miss {st : State} {log : List Entry} (h : Logged r sink st log) (store : Template.Store) (id : Text) (q : Request)
      {fault : Fault} (hmiss : store.find id = .error fault) :
      Logged r sink (r.renderById st store id q).2 (log ++ [.ofMiss id q fault])
  -- whatever is no attempt writes nothing down: permissions, stamps and caches may change
  | other {st : State} {log : List Entry} (h : Logged r sink st log) (st' : State) (hledger : st'.ledger = st.ledger) :
      Logged r sink st' log

/-- The ledger balances behind every log. -/
lemma Logged.balances {sink : Audit.Sink} {log : List Entry} (h : r.Logged sink st log) :
    st.ledger.Balances sink log := by
  induction h with
  | start st hmetrics haudit => exact haudit ▸ Ledger.Balances.start hmetrics
  | @render st log _ disk template q ih =>
    rw [ledger_render]
    exact ih.concat (.ofRender (r.on disk) st template q) q.duration
  | @miss st log _ store id q fault hmiss ih =>
    rw [ledger_miss hmiss]
    exact ih.concat (.ofMiss id q fault) q.duration
  | other _ st' hledger ih => rwa [hledger]

/-- An attempt is rejected by a gate if it fails behind the first of them. -/
lemma Logged.isSome_gate {sink : Audit.Sink} {log : List Entry} (h : r.Logged sink st log) :
    ∀ e ∈ log, e.gate.isSome = e.failedAtGate := by
  induction h with
  | start => exact fun e he => absurd he List.not_mem_nil
  | @render st log _ disk template q ih =>
    have hrender := isSome_gate_ofRender (r.on disk) st template q
    exact List.forall_mem_append.2 ⟨ih, List.forall_mem_singleton.2 hrender⟩
  | miss _ store id q hmiss ih => exact List.forall_mem_append.2 ⟨ih, List.forall_mem_singleton.2 rfl⟩
  | other _ st' hledger ih => exact ih

lemma Logged.length_gates {sink : Audit.Sink} {log : List Entry} (h : r.Logged sink st log) :
    (log.filterMap Entry.gate).length = log.countP Entry.failedAtGate := by
  rw [List.length_filterMap_eq_countP]
  exact List.countP_congr fun e he => by rw [h.isSome_gate e he]

/-- Events are kept in memory in the order in which they are emitted. -/
lemma foldl_emit_memory (events more : List Audit.Event) :
    more.foldl Audit.Sink.emit (.memory events) = .memory (events ++ more) := by
  induction more generalizing events with
  | nil => rw [List.foldl_nil, List.append_nil]
  | cons event more ih =>
    rw [List.foldl_cons, Audit.Sink.emit, ih, List.append_assoc]
    rfl

/-- After any attempts, the audit has been told of each of them in turn, each is counted once by its outcome and its
duration, none is under way, and those that have failed at a gate are counted once more, by the gate that rejected
them. Counters are words; up to as many attempts as a word can count, the sums are the numbers themselves. -/
theorem accounts_of_logged {sink : Audit.Sink} {log : List Entry} (h : r.Logged sink st log) :
    (∃ events : List Audit.Event, st.audit = events.foldl Audit.Sink.emit sink ∧
      (sink = .memory [] → st.audit = .memory events) ∧
      List.Forall₂ (fun e event => event.user = e.user ∧ event.resource = e.resource ∧ event.outcome = e.outcome)
        log events) ∧
    st.metrics.renders.total = UInt64.ofNat log.length ∧
    (∀ outcome, st.metrics.renders.value [("outcome".toList, outcome)] =
      UInt64.ofNat (log.countP fun e => e.outcome = outcome)) ∧
    st.metrics.underWay.value [] = 0 ∧
    st.metrics.durations.count [] = UInt64.ofNat log.length ∧
    st.metrics.rejections.total = UInt64.ofNat (log.countP Entry.failedAtGate) ∧
    (∀ gate : Gate, st.metrics.rejections.value [("gate".toList, gate.name)] =
      UInt64.ofNat (log.countP fun e => e.gate = some gate)) ∧
    (∀ e ∈ log, e.gate.isSome = e.failedAtGate) ∧
    (log.length < Word.size →
      st.metrics.renders.sum = log.length ∧ st.metrics.rejections.sum = log.countP Entry.failedAtGate) := by
  -- the ledger balances behind every attempt, and each account is read off it
  have hbalances := h.balances
  have hrenders : st.metrics.renders = .ofLabels (log.map fun e => [("outcome".toList, e.outcome)]) :=
    hbalances.renders
  have hrejections : st.metrics.rejections =
      .ofLabels ((log.filterMap Entry.gate).map fun gate => [("gate".toList, gate.name)]) := hbalances.rejections
  have haudit : st.audit = (log.map Entry.event).foldl Audit.Sink.emit sink := hbalances.audit
  refine ⟨⟨log.map Entry.event, haudit, ?_, ?_⟩, ?_, hbalances.value_renders, hbalances.underWay,
    hbalances.durations, ?_, hbalances.value_rejections, h.isSome_gate, ?_⟩
  · intro hsink
    rw [haudit, hsink, foldl_emit_memory, List.nil_append]
  · rw [List.forall₂_map_right_iff]
    exact List.forall₂_same.2 fun e _ => ⟨e.user_event, e.resource_event, e.outcome_event⟩
  · rw [hrenders, Metrics.Counters.total_ofLabels, List.length_map]
  · rw [hrejections, Metrics.Counters.total_ofLabels, List.length_map, h.length_gates]
  · intro hlength
    constructor
    · rw [hrenders, Metrics.Counters.sum_ofLabels (by rwa [List.length_map]), List.length_map]
    · have hgates : (log.filterMap Entry.gate).length < Word.size :=
        Nat.lt_of_le_of_lt (List.length_filterMap_le _ _) hlength
      rw [hrejections, Metrics.Counters.sum_ofLabels (by rwa [List.length_map]), List.length_map, h.length_gates]

/-- A state before any attempt, with an audit that keeps all events. -/
def observed : State := { unused with audit := .memory [] }

/-- A user asks for a template, having cancelled the attempt or not. -/
def visit (cancelled : Bool) : Request := ⟨.empty, "u", cancelled, fun _ => false, 0, 700⟩

/-- Three attempts, none of which comes to the rate. -/
def visits : List Entry :=
  [⟨"u", "t", .error (.exhausted .time), true, none⟩,
    ⟨"u", "t", .error (.permissionDenied "execute"), false, some .permission⟩,
    ⟨"u", "gone", .error (.context (.unknownTemplate "gone")), true, none⟩]

/-- One of the three attempts is rejected by a gate. -/
theorem accounts_visits :
    ∃ st, includer.Logged (.memory []) st visits ∧ st.metrics.renders.total = 3 ∧
      st.metrics.rejections.value [("gate".toList, Gate.permission.name)] = 1 ∧
      st.metrics.rejections.total = 1 ∧ ∃ events, st.audit = .memory events ∧ events.length = 3 := by
  have hstart : includer.Logged (.memory []) observed [] := .start observed rfl rfl
  have hcancelled := hstart.render (oneFile "") (.new "t" "x") (visit true)
  have hdenied := hcancelled.render (oneFile "") (.new "t" "x") (visit false)
  have hvisits : includer.Logged (.memory []) _ visits := hdenied.miss [] "gone" (visit false) rfl
  obtain ⟨⟨events, -, haudit, hevents⟩, hrenders, -, -, -, hrejections, hgates, -⟩ := accounts_of_logged hvisits
  refine ⟨_, hvisits, hrenders, hgates .permission, hrejections, events, haudit rfl, ?_⟩
  rw [← hevents.length_eq]
  rfl

end Stencil.Renderer
