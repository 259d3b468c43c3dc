import Stencil.Proofs.Sandbox.Refinement
import Stencil.Proofs.Sandbox.Rules
import Stencil.Proofs.Template.Placeholders

/-!
# The scope of a loop variable

Where a run comes to a node (`Comes`), it is in turns of the loops around the node, each with an item that the variable
of its loop stands for. The names on the stack are those of the turns and nothing else (`Comes.scopes`). So a path that
begins with the variable of a loop leads into the item of the turn, if no loop further inside has a variable of that
name (`resolve?_in_turn`). The one exception is the name under which loops tell about their turns.

That a run comes to a node is no more than that the rules of runs go through it: what halts the node halts the run
(`Comes.halts`), and whatever is written is written by a node that the run comes to (`exists_comes_of_mem_written`).
-/

namespace Stencil.Sandbox

open Json Template

/-! ## Where a run comes to -/

/-- A turn of a loop: the variable of the loop and the item that it stands for, which turn it is, and of how many. -/
structure Turn where
  name : Text
  item : Value
  number : Nat
  shown : Nat

/-- The names that a turn binds. -/
def Turn.bindings (turn : Turn) : Scopes := [(turnName, turnInfo turn.number turn.shown), (turn.name, turn.item)]

/-- A body is entered: it lies not too deep, and there is time left. -/
structure Enters (s : Sandbox) (run inside : Run) : Prop where
  depth : run.depth < s.budget.maxRecursionDepth
  look : s.look { run with depth := run.depth + 1 } = .ok () inside

/-- The nodes that a run of a part of a program comes to, and the states in which it begins them. The turns are those of
the loops around a node within the part, innermost first. -/
inductive Comes (s : Sandbox) : Part → Run → List Turn → Node → Run → Prop where
  | here {node run} : Comes s (.node node) run [] node run
  | first {first rest run between turns node after} (look : s.look run = .ok () between)
      (inside : Comes s (.node first) between turns node after) :
      Comes s (.program (first :: rest)) run turns node after
  | later {first rest run between next paths turns node after} (look : s.look run = .ok () between)
      (ends : s.Ends (.part (.node first)) between paths (.ok () next))
      (inside : Comes s (.program rest) next turns node after) :
      Comes s (.program (first :: rest)) run turns node after
  | loop {name collection body all run turns node after}
      (list : resolve? s.context run.scopes collection = some (.array all))
      (inside : Comes s (.turns name (all.take s.budget.maxLoopIterations).length body 1
        (all.take s.budget.maxLoopIterations)) run turns node after) :
      Comes s (.node (.loop name collection body)) run turns node after
  | turn {name shown body number item rest run between begun begins turns node after}
      (look : s.look run = .ok () between) (count : s.countTurn between = .ok () begun)
      (enters : s.Enters { begun with scopes := Turn.bindings ⟨name, item, number, shown⟩ ++ begun.scopes } begins)
      (inside : Comes s (.program body) begins turns node after) :
      Comes s (.turns name shown body number (item :: rest)) run (turns ++ [⟨name, item, number, shown⟩]) node after
  | laterTurn {name shown body number item rest run between begun next paths turns node after}
      (look : s.look run = .ok () between) (count : s.countTurn between = .ok () begun)
      (ends : s.Ends (.bound (Turn.bindings ⟨name, item, number, shown⟩) (.nested (.body body))) begun paths
        (.ok () next))
      (inside : Comes s (.turns name shown body (number + 1) rest) next turns node after) :
      Comes s (.turns name shown body number (item :: rest)) run turns node after
  | branch {condition body otherwise run begins turns node after} (enters : s.Enters run begins)
      (inside : Comes s (.program (if holds s.context run.scopes condition then body else otherwise)) begins turns node
        after) :
      Comes s (.node (.conditional condition body otherwise)) run turns node after
  | region {name body run begins turns node after} (enabled : s.context.regionEnabled name = true)
      (enters : s.Enters run begins) (inside : Comes s (.program body) begins turns node after) :
      Comes s (.node (.region name body)) run turns node after
  | inclusion {path loader program cache run begins turns node after} (enabled : s.loader = some loader)
      (depth : run.inclusionDepth < s.budget.maxIncludeDepth)
      (load : loader.load run.cache path = (.ok program, cache))
      (enters : s.Enters { run with cache, inclusionDepth := run.inclusionDepth + 1 } begins)
      (inside : Comes s (.program program) begins turns node after) :
      Comes s (.node (.inclusion path)) run turns node after

variable {s : Sandbox} {part : Part} {program : Program} {node : Node} {run between inside after last : Run}
  {turns inner outer : List Turn} {turn : Turn} {task : Task} {paths : List Text} {ending : Ending} {t : Text}

/-! ## The names of the turns -/

lemma scopes_of_step (step : Step) (h : step.action s run = .ok () after) : after.scopes = run.scopes := by
  have hkept := Step.kept s step run
  rw [h] at hkept
  exact hkept.scopes

lemma Ends.scopes_of_ok (h : s.Ends task run paths (.ok () after)) : after.scopes = run.scopes := h.kept.scopes

theorem Enters.scopes (h : s.Enters run inside) : inside.scopes = run.scopes := by
  have hlook : inside.scopes = ({ run with depth := run.depth + 1 } : Run).scopes := scopes_of_step .look h.look
  exact hlook

/-- The names on the stack at a node are those of the turns around it, in front of the names that were there. -/
theorem Comes.scopes (h : s.Comes part run turns node after) :
    after.scopes = turns.flatMap Turn.bindings ++ run.scopes := by
  induction h with
  | here => rfl
  | first look _ ih => rw [ih, scopes_of_step .look look]
  | later look ends _ ih => rw [ih, ends.scopes_of_ok, scopes_of_step .look look]
  | loop _ _ ih => exact ih
  | turn look count enters _ ih =>
    rw [ih, enters.scopes, scopes_of_step .countTurn count, scopes_of_step .look look, List.flatMap_append,
      List.flatMap_singleton, List.append_assoc]
  | laterTurn look count ends _ ih =>
    rw [ih, ends.scopes_of_ok, scopes_of_step .countTurn count, scopes_of_step .look look]
  | branch enters _ ih | region _ enters _ ih | inclusion _ _ _ enters _ ih => rw [ih, enters.scopes]

/-- A name stands for the item of the innermost turn that binds it. -/
lemma valueOf?_of_turn (context : CleanContext) (scopes : Scopes) (hname : turn.name ≠ turnName)
    (hinner : ∀ other ∈ inner, other.name ≠ turn.name) :
    valueOf? context ((inner ++ turn :: outer).flatMap Turn.bindings ++ scopes) turn.name = some turn.item := by
  induction inner with
  | nil =>
    rw [List.nil_append, List.flatMap_cons, List.append_assoc, Turn.bindings, List.cons_append, List.cons_append,
      valueOf?_cons, if_neg hname.symm, valueOf?_cons, if_pos rfl]
  | cons first inner ih =>
    obtain ⟨hfirst, hrest⟩ := List.forall_mem_cons.1 hinner
    rw [List.cons_append, List.flatMap_cons, List.append_assoc, Turn.bindings, List.cons_append, List.cons_append,
      valueOf?_cons, if_neg hname.symm, valueOf?_cons, if_neg hfirst, List.nil_append, ih hrest]

/-! ## Turns belong to loops -/

/-- Whether a turn is one of those that a loop over the list of this name goes through here. -/
def Takes (s : Sandbox) (run : Run) (collection : Path) (turn : Turn) : Prop :=
  ∃ all, resolve? s.context run.scopes collection = some (.array all) ∧ 0 < turn.number ∧
    (all.take s.budget.maxLoopIterations)[turn.number - 1]? = some turn.item ∧
      turn.shown = (all.take s.budget.maxLoopIterations).length

/-- A turn around a node is one of a loop that the run of a part comes to, and the node is one of its body. -/
def OfLoop (s : Sandbox) (part : Part) (run : Run) (inner : List Turn) (turn : Turn) (outer : List Turn) (node : Node)
    (after : Run) : Prop :=
  ∃ collection body begun begins, s.Comes part run outer (.loop turn.name collection body) begun ∧
    s.Takes begun collection turn ∧ begins.scopes = turn.bindings ++ begun.scopes ∧
      s.Comes (.program body) begins inner node after

/-- A turn around a node is one of those that a part is made of. -/
def OfTurns (s : Sandbox) (run : Run) (inner : List Turn) (turn : Turn) (node : Node) (after : Run) : Part → Prop
  | .turns name shown body number items =>
    turn.name = name ∧ turn.shown = shown ∧ number ≤ turn.number ∧ items[turn.number - number]? = some turn.item ∧
      ∃ begins : Run, begins.scopes = turn.bindings ++ run.scopes ∧ s.Comes (.program body) begins inner node after
  | .program _ => False
  | .node _ => False

/-- A turn within a part is a turn of everything around it. -/
lemma OfLoop.lift {part part' : Part} {run run' : Run} (h : s.OfLoop part run inner turn outer node after)
    {outer' : List Turn}
    (hlift : ∀ node after, s.Comes part run outer node after → s.Comes part' run' outer' node after) :
    s.OfLoop part' run' inner turn outer' node after := by
  obtain ⟨collection, body, begun, begins, hloop, htakes⟩ := h
  exact ⟨collection, body, begun, begins, hlift _ _ hloop, htakes⟩

/-- Each turn around a node is either one of a loop inside of the part, or one of those that the part is made of. -/
lemma Comes.ofLoop_or_ofTurns (h : s.Comes part run (inner ++ turn :: outer) node after) :
    s.OfLoop part run inner turn outer node after ∨ outer = [] ∧ s.OfTurns run inner turn node after part := by
  generalize hturns : inner ++ turn :: outer = turns at h
  -- by induction on the way to the node; only turns begin a turn, and only a loop begins turns
  induction h generalizing outer with
  | here => simp at hturns
  | first look _ ih => exact .inl (((ih hturns).resolve_right And.right).lift fun _ _ => .first look)
  | later look ends _ ih => exact .inl (((ih hturns).resolve_right And.right).lift fun _ _ => .later look ends)
  | loop list _ ih =>
    rcases ih hturns with hloop | ⟨rfl, rfl, hshown, hnumber, hitem, begins, hbegins⟩
    · exact .inl (hloop.lift fun _ _ => .loop list)
    · exact .inl ⟨_, _, _, begins, .here, ⟨_, list, hnumber, hitem, hshown⟩, hbegins⟩
  | turn look count enters inside ih =>
    rcases List.eq_nil_or_concat outer with rfl | ⟨outer', last, rfl⟩
    · -- the turn is the one that begins here
      obtain ⟨rfl, hlast⟩ := List.append_inj' hturns rfl
      obtain rfl := List.singleton_inj.1 hlast
      refine .inr ⟨rfl, rfl, rfl, Nat.le_refl _, ?_, _, ?_, inside⟩
      · rw [Nat.sub_self]
        rfl
      · rw [enters.scopes, scopes_of_step .countTurn count, scopes_of_step .look look]
    · rw [List.concat_eq_append, ← List.cons_append, ← List.append_assoc] at hturns
      obtain ⟨hinner, hlast⟩ := List.append_inj' hturns rfl
      obtain rfl := List.singleton_inj.1 hlast
      rw [List.concat_eq_append]
      exact .inl (((ih hinner).resolve_right And.right).lift fun _ _ => .turn look count enters)
  | laterTurn look count ends _ ih =>
    rcases ih hturns with hloop | ⟨houter, hname, hshown, hnumber, hitem, begins, hbegins, hinside⟩
    · exact .inl (hloop.lift fun _ _ => .laterTurn look count ends)
    · refine .inr ⟨houter, hname, hshown, Nat.le_of_succ_le hnumber, ?_, begins, ?_, hinside⟩
      · rw [← hitem, ← Nat.succ_sub_succ, Nat.succ_sub hnumber, List.getElem?_cons_succ]
      · rw [hbegins, ends.scopes_of_ok, scopes_of_step .countTurn count, scopes_of_step .look look]
  | branch enters _ ih => exact .inl (((ih hturns).resolve_right And.right).lift fun _ _ => .branch enters)
  | region enabled enters _ ih =>
    exact .inl (((ih hturns).resolve_right And.right).lift fun _ _ => .region enabled enters)
  | inclusion enabled depth load enters _ ih =>
    exact .inl (((ih hturns).resolve_right And.right).lift fun _ _ => .inclusion enabled depth load enters)

/-- Each turn around a node is one of a loop that the run has come to, and the node is one of its body. -/
lemma Comes.ofLoop (h : s.Comes (.program program) run (inner ++ turn :: outer) node after) :
    s.OfLoop (.program program) run inner turn outer node after :=
  h.ofLoop_or_ofTurns.resolve_right And.right

/-- In every turn of a loop, a path that begins with the variable of the loop leads into the item of the turn, at every
node of the body that the run comes to but for those inside of a further loop over a variable of this name. -/
theorem resolve?_in_turn (h : s.Comes (.program program) run (inner ++ turn :: outer) node after)
    (hname : turn.name ≠ turnName) (hinner : ∀ other ∈ inner, other.name ≠ turn.name) :
    s.OfLoop (.program program) run inner turn outer node after ∧
      ∀ rest, resolve? s.context after.scopes (turn.name :: rest) = Env.within? turn.item rest := by
  refine ⟨h.ofLoop, fun rest => ?_⟩
  rw [h.scopes, resolve?_eq, Env.resolve?, envOf, valueOf?_of_turn s.context run.scopes hname hinner, Option.bind_some]

/-- The rows of a table with their cells, and a variable that is called like a row. -/
def table : Sandbox :=
  { listing with context := ⟨[("row", .string "no row")], [], [("rows", .array [.array [.string "a", .string "b"]])]⟩ }

/-- For each cell of each row, the second cell of the row. -/
def tableProgram : Program := [.loop "row" ["rows"] [.loop "cell" ["row"] [.substitution ["row", "1"] "none"]]]

/-- In the first turn of the inner loop, the row is still that of the outer one. -/
theorem resolve?_row_at_cell :
    ∃ after, table.Comes (.program tableProgram) (Run.start (InclusionCache.new 1 1))
        ([⟨"cell", .string "a", 1, 2⟩] ++ ⟨"row", .array [.string "a", .string "b"], 1, 1⟩ :: [])
        (.substitution ["row", "1"] "none") after ∧
      "row".toList ≠ turnName ∧ "cell".toList ≠ "row".toList ∧
        resolve? table.context after.scopes ["row", "1"] = some (.string "b") := by
  have hrow : "row".toList ≠ turnName := by decide
  have hcell : "cell".toList ≠ "row".toList := by decide
  obtain ⟨after, hcomes⟩ : ∃ after, table.Comes (.program tableProgram) (Run.start (InclusionCache.new 1 1))
      ([⟨"cell", .string "a", 1, 2⟩] ++ ⟨"row", .array [.string "a", .string "b"], 1, 1⟩ :: [])
      (.substitution ["row", "1"] "none") after :=
    ⟨_, .first rfl (.loop rfl (.turn rfl rfl ⟨by decide, rfl⟩
      (.first rfl (.loop rfl (.turn rfl rfl ⟨by decide, rfl⟩ (.first rfl .here))))))⟩
  exact ⟨after, hcomes, hrow, hcell, (resolve?_in_turn hcomes hrow (List.forall_mem_singleton.2 hcell)).2 ["1"]⟩

/-- The rule has one exception. A template may call the variable of a loop like what the loop tells about its turns, and
then it reads of the turn and not of the item. -/
theorem resolve?_turnName_in_turn :
    Program.ofSource ⟨256, 10⟩ "<!--FOR loop IN rows-->\x7b\x7bloop\x7d\x7d<!--END FOR-->" =
        .ok [.loop turnName ["rows"] [.substitution [turnName] "\x7b\x7bloop\x7d\x7d"]] ∧
      ∃ after, table.Comes (.program [.loop turnName ["rows"] [.substitution [turnName] "\x7b\x7bloop\x7d\x7d"]])
          (Run.start (InclusionCache.new 1 1)) [⟨turnName, .array [.string "a", .string "b"], 1, 1⟩]
          (.substitution [turnName] "\x7b\x7bloop\x7d\x7d") after ∧
        resolve? table.context after.scopes [turnName] = some (turnInfo 1 1) ∧
        Env.within? (.array [.string "a", .string "b"]) [] ≠ some (turnInfo 1 1) := by
  have hpieces : Piece.ofSource 1 "<!--FOR loop IN rows-->\x7b\x7bloop\x7d\x7d<!--END FOR-->" =
      .ok [.block .comment "FOR loop IN rows", .block .expression "loop", .block .comment "END FOR"] := by
    decide +kernel
  refine ⟨?_, _, .first rfl (.loop rfl (.turn rfl rfl ⟨by decide, rfl⟩ (.first rfl .here))), rfl, nofun⟩
  rw [Program.ofSource_of_tokens (Token.ofSource_of_pieces hpieces)]
  rfl

/-! ## What a run comes to, it goes through -/

lemma ends_step (step : Step) (h : step.action s run = ending) : s.Ends (.step step) run [] ending := h ▸ .step

variable {halt : Halt}

/-- If a file halts, the inclusion that has entered it halts with it. -/
theorem Enters.halts (h : s.Enters run inside)
    (hends : s.Ends (.part (.program program)) inside paths (.error halt last)) :
    ∃ paths' last', s.Ends (.nested (.body program)) run paths' (.error halt last') :=
  ⟨_, _, Ends.nested_of_error h.depth (.sequence (ends_step .look h.look) hends)⟩

/-- A conditional has the task of the branch that is decided for. -/
lemma Part.task?_branch (s : Sandbox) (scopes : Scopes) (condition : Condition) (body otherwise : Program) :
    Part.task? s scopes (.node (.conditional condition body otherwise)) =
      some (.nested (.body (if holds s.context scopes condition then body else otherwise))) := by
  rw [Part.task?]
  split
  · rfl
  · rfl

/-- What halts a node that a run comes to halts the run. -/
theorem Comes.halts (h : s.Comes part run turns node after)
    (hends : s.Ends (.part (.node node)) after paths (.error halt last)) :
    ∃ paths' last', s.Ends (.part part) run paths' (.error halt last') := by
  -- by induction on the way to the node: whatever was entered halts with what is inside
  induction h with
  | here => exact ⟨_, _, hends⟩
  | first look _ ih =>
    obtain ⟨_, _, hfirst⟩ := ih hends
    exact ⟨_, _, .part rfl (.sequence (ends_step .look look) (.halted hfirst))⟩
  | later look ends _ ih =>
    obtain ⟨_, _, hrest⟩ := ih hends
    exact ⟨_, _, .part rfl (.sequence (ends_step .look look) (.sequence ends hrest))⟩
  | loop list _ ih =>
    obtain ⟨_, _, hturns⟩ := ih hends
    refine ⟨_, _, .part ?_ hturns⟩
    rw [Part.task?, list]
  | turn look count enters _ ih =>
    obtain ⟨_, _, hbody⟩ := ih hends
    obtain ⟨_, _, hnested⟩ := enters.halts hbody
    exact ⟨_, _, .part rfl (.sequence (ends_step .look look)
      (.sequence (ends_step .countTurn count) (.halted (.bound hnested))))⟩
  | laterTurn look count ends _ ih =>
    obtain ⟨_, _, hrest⟩ := ih hends
    exact ⟨_, _, .part rfl (.sequence (ends_step .look look)
      (.sequence (ends_step .countTurn count) (.sequence ends hrest)))⟩
  | branch enters _ ih =>
    obtain ⟨_, _, hbody⟩ := ih hends
    obtain ⟨_, _, hnested⟩ := enters.halts hbody
    exact ⟨_, _, .part (Part.task?_branch s _ _ _ _) hnested⟩
  | region enabled enters _ ih =>
    obtain ⟨_, _, hbody⟩ := ih hends
    obtain ⟨_, _, hnested⟩ := enters.halts hbody
    refine ⟨_, _, .part ?_ hnested⟩
    rw [Part.task?, if_pos enabled]
  | inclusion enabled depth load enters _ ih =>
    obtain ⟨_, _, hbody⟩ := ih hends
    obtain ⟨_, _, hnested⟩ := enters.halts hbody
    exact ⟨_, _, .inclusion enabled depth load hnested⟩

/-! ## What a run goes through, it comes to -/

/-- Whether a node writes a text under the names on the stack. -/
def NodeWrites (s : Sandbox) (node : Node) (scopes : Scopes) (t : Text) : Prop :=
  Part.task? s scopes (.node node) = some (.step (.emit t))

/-- Whether a task writes a text, in its own steps or at a node that it comes to. -/
def Writes (s : Sandbox) : Task → Run → Text → Prop
  | .step step, _, t => step = .emit t
  | .sequence first second, run, t =>
    Writes s first run t ∨ ∃ paths between, s.Ends first run paths (.ok () between) ∧ Writes s second between t
  | .nested body, run, t =>
    run.depth < s.budget.maxRecursionDepth ∧ Writes s body { run with depth := run.depth + 1 } t
  | .bound bindings body, run, t => Writes s body { run with scopes := bindings ++ run.scopes } t
  | .part part, run, t => ∃ turns node after, s.Comes part run turns node after ∧ s.NodeWrites node after.scopes t

/-- A step writes only what it emits. -/
lemma writes_step {step : Step} (hmem : t ∈ (Ending.state (step.action s run)).written) :
    t ∈ run.written ∨ step = .emit t := by
  rw [← behind_eq_state] at hmem
  cases step with
  | skip => exact .inl hmem
  | look =>
    rw [Step.action, Recorded.behind_look] at hmem
    exact .inl hmem
  | countTurn =>
    rw [Step.action, Recorded.behind_countTurn] at hmem
    exact .inl hmem
  | emit t' =>
    rw [Step.action, Recorded.behind_emit] at hmem
    split at hmem
    · exact .inl hmem
    · exact (List.mem_cons.1 hmem).symm.imp_right fun heq => congrArg Step.emit heq.symm

lemma Ends.eq_of_step {step : Step} (h : s.Ends (.step step) run paths ending) : step.action s run = ending := by
  cases h
  rfl

/-- What is written in a body that is entered. -/
lemma exists_comes_of_writes_nested (h : s.Writes (.nested (.body program)) run t) :
    ∃ inside, s.Enters run inside ∧ s.Writes (.part (.program program)) inside t := by
  obtain ⟨hdepth, hlook | ⟨_, inside, hlook, hinside⟩⟩ := h
  · cases hlook
  · exact ⟨inside, ⟨hdepth, hlook.eq_of_step⟩, hinside⟩

/-- What a part comes down to writes only at nodes that the part comes to. -/
lemma writes_part (htask : part.task? s run.scopes = some task) (h : s.Writes task run t) :
    s.Writes (.part part) run t := by
  -- a part writes what its task does; each rule of the task is one of the ways in which a run comes to a node
  cases part with
  | program program =>
    cases program with
    | nil =>
      obtain rfl := Option.some.inj htask
      cases h
    | cons first rest =>
      obtain rfl := Option.some.inj htask
      obtain hlook | ⟨_, between, hlook, ⟨turns, node, after, hcomes, hwrites⟩ |
        ⟨_, next, hfirst, turns, node, after, hcomes, hwrites⟩⟩ := h
      · cases hlook
      · exact ⟨turns, node, after, .first hlook.eq_of_step hcomes, hwrites⟩
      · exact ⟨turns, node, after, .later hlook.eq_of_step hfirst hcomes, hwrites⟩
  | node node =>
    cases node with
    | literal | substitution =>
      obtain rfl := Option.some.inj htask
      exact ⟨[], _, run, .here, htask.trans (congrArg (fun step => some (Task.step step)) h)⟩
    | loop name collection body =>
      rw [Part.task?] at htask
      split at htask
      · rename_i all hlist
        obtain rfl := Option.some.inj htask
        obtain ⟨turns, node, after, hcomes, hwrites⟩ := h
        exact ⟨turns, node, after, .loop hlist hcomes, hwrites⟩
      · obtain rfl := Option.some.inj htask
        cases h
    | conditional condition body otherwise =>
      rw [Part.task?_branch] at htask
      obtain rfl := Option.some.inj htask
      obtain ⟨inside, henters, turns, node, after, hcomes, hwrites⟩ := exists_comes_of_writes_nested h
      exact ⟨turns, node, after, .branch henters hcomes, hwrites⟩
    | region name body =>
      rw [Part.task?] at htask
      split at htask
      · rename_i henabled
        obtain rfl := Option.some.inj htask
        obtain ⟨inside, henters, turns, node, after, hcomes, hwrites⟩ := exists_comes_of_writes_nested h
        exact ⟨turns, node, after, .region henabled henters hcomes, hwrites⟩
      · obtain rfl := Option.some.inj htask
        cases h
    | inclusion path => cases htask
  | turns name shown body number items =>
    cases items with
    | nil =>
      obtain rfl := Option.some.inj htask
      cases h
    | cons item rest =>
      obtain rfl := Option.some.inj htask
      obtain hlook | ⟨_, between, hlook, hcount | ⟨_, begun, hcount, hturn |
        ⟨_, next, hends, turns, node, after, hcomes, hwrites⟩⟩⟩ := h
      · cases hlook
      · cases hcount
      · obtain ⟨inside, henters, turns, node, after, hcomes, hwrites⟩ := exists_comes_of_writes_nested hturn
        exact ⟨_, node, after, .turn hlook.eq_of_step hcount.eq_of_step henters hcomes, hwrites⟩
      · exact ⟨turns, node, after, .laterTurn hlook.eq_of_step hcount.eq_of_step hends hcomes, hwrites⟩

/-- What is written in a task has been there or is what the task writes. -/
lemma Ends.writes (h : s.Ends task run paths ending) (hmem : t ∈ (Ending.state ending).written) :
    t ∈ run.written ∨ s.Writes task run t := by
  induction h with
  | step => exact writes_step hmem
  | sequence first _ ih ihSecond =>
    rcases ihSecond hmem with hbefore | hsecond
    · exact (ih hbefore).imp_right .inl
    · exact .inr (.inr ⟨_, _, first, hsecond⟩)
  | halted _ ih => exact (ih hmem).imp_right .inl
  | nested depth _ ih =>
    rw [state_leave] at hmem
    exact (ih hmem).imp_right fun hbody => ⟨depth, hbody⟩
  | tooDeep | noLoader | tooManyInclusions | refused => exact .inl hmem
  | bound _ ih =>
    rw [state_leave] at hmem
    exact ih hmem
  | part comes _ ih => exact (ih hmem).imp_right (writes_part comes)
  | inclusion enabled depth load _ ih =>
    rw [state_leave] at hmem
    refine (ih hmem).imp_right fun hbody => ?_
    obtain ⟨inside, henters, turns, node, after, hcomes, hwrites⟩ := exists_comes_of_writes_nested hbody
    exact ⟨turns, node, after, .inclusion enabled depth load henters hcomes, hwrites⟩

/-- All that the run of a program writes is written by nodes that it comes to. -/
theorem exists_comes_of_mem_written {cache : InclusionCache}
    (hmem : t ∈ (Ending.state (s.execute s.budget.maxIncludeDepth program (Run.start cache))).written) :
    ∃ begun turns node after, s.look (Run.start cache) = .ok () begun ∧
      s.Comes (.program program) begun turns node after ∧ s.NodeWrites node after.scopes t := by
  obtain ⟨paths, hends⟩ := ends_execute s cache program
  obtain hbefore | hlook | ⟨_, begun, hlook, turns, node, after, hcomes, hwrites⟩ := hends.writes hmem
  · cases hbefore
  · cases hlook
  · exact ⟨begun, turns, node, after, hlook.eq_of_step, hcomes, hwrites⟩

end Stencil.Sandbox
