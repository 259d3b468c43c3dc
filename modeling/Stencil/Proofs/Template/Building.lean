import Stencil.Proofs.Basic
import Stencil.Proofs.Template.Grammar
import Stencil.Proofs.Template.Keywords

/-!
# Building a program

The outline that grows token by token against the grammar. What one token can do to an outline is said once
(`Takes`, `Outline.step_eq_ok_iff`); a run over marks is a row of such steps. A run takes marks that build a program
to that program (`runs_of_builds`), and marks that a run takes to its end build the bodies that were open
(`Completes`, `completes_of_runs`).

Main statement: which templates are programs, and of which nodes (`Program.ofSource_builds`).
-/

namespace Stencil.Template

/-! ## One token -/

/-- What a mark does to an outline. -/
inductive Takes (limits : Limits) : Outline → Mark → Outline → Prop
  | leaf (o : Outline) (part : Leaf) : Takes limits o (.leaf part) (o.add part.node)
  | opens {o : Outline} (line : Nat) (heading : Heading) (hroom : o.frames.length < limits.maxNesting) :
    Takes limits o (.opens line heading) ⟨⟨heading.opening, line, o.nodes⟩ :: o.frames, []⟩
  | turns (condition : Condition) (line : Nat) (before nodes : List Node) (outer : List Frame) :
    Takes limits ⟨⟨.conditional condition, line, before⟩ :: outer, nodes⟩ .turns
      ⟨⟨.alternative condition nodes.reverse, line, before⟩ :: outer, []⟩
  | closes (frame : Frame) (outer : List Frame) (nodes : List Node) :
    Takes limits ⟨frame :: outer, nodes⟩ (.closes frame.opening.keyword)
      ⟨outer, frame.opening.node nodes.reverse :: frame.before⟩

namespace Outline

lemma locate_eq_ok_iff {α : Type} {line : Nat} {x : Except Defect α} {a : α} :
    locate line x = .ok a ↔ x = .ok a := mapError_eq_ok_iff

/-- A block is opened if and only if the outline takes its heading. -/
lemma openBlock_eq_ok_iff {limits : Limits} {line : Nat} {o o' : Outline} {heading : Heading} :
    openBlock limits line o heading.opening = .ok o' ↔ Takes limits o (.opens line heading) o' := by
  rw [openBlock]
  constructor
  · intro h
    split at h
    · simp at h
    · rename_i hroom
      rw [← Except.ok.inj h]
      exact .opens line heading (Nat.lt_of_not_le hroom)
  · rintro ⟨⟩
    rename_i hroom
    rw [if_neg (Nat.not_le_of_lt hroom)]

/-- A block is turned if and only if the outline takes the turn. -/
lemma turn_eq_ok_iff {limits : Limits} {o o' : Outline} : turn o = .ok o' ↔ Takes limits o .turns o' := by
  constructor
  · intro h
    unfold turn at h
    split at h
    · rename_i condition line before outer hframes
      obtain ⟨frames, nodes⟩ := o
      obtain rfl : frames = _ := hframes
      rw [← Except.ok.inj h]
      exact .turns condition line before nodes outer
    · simp at h
  · rintro ⟨⟩
    rfl

/-- A block is closed if and only if the outline takes the close. -/
lemma closeBlock_eq_ok_iff {limits : Limits} {o o' : Outline} {keyword : Text} :
    closeBlock o keyword = .ok o' ↔ Takes limits o (.closes keyword) o' := by
  constructor
  · intro h
    obtain ⟨frames, nodes⟩ := o
    unfold closeBlock at h
    cases frames with
    | nil => simp at h
    | cons frame outer =>
      dsimp only at h
      split at h
      · rename_i hkeyword
        rw [← Except.ok.inj h, ← hkeyword]
        exact .closes frame outer nodes
      · simp at h
  · rintro ⟨⟩
    simp [closeBlock]

/-- A loop is read from its variable, the word `IN` and its collection, and from nothing else. -/
lemma loopOf_eq_ok_iff {words : List Text} {opening : Opening} :
    loopOf words = .ok opening ↔ ∃ (name collection : Text) (path : Path), words = [name, "IN", collection] ∧
      Path.identifier name = .ok name ∧ Path.read collection = .ok path ∧ opening = .loop name path := by
  constructor
  · intro h
    unfold loopOf at h
    split at h
    · rename_i name word collection
      split at h
      · rename_i hword
        obtain ⟨name', hname, hrest⟩ := bind_eq_ok_iff.1 h
        obtain ⟨path, hpath, hopening⟩ := bind_eq_ok_iff.1 hrest
        obtain rfl := Path.eq_of_identifier hname
        exact ⟨name', collection, path, by rw [hword], hname, hpath, (Except.ok.inj hopening).symm⟩
      · simp at h
    · simp at h
  · rintro ⟨name, collection, path, rfl, hname, hpath, rfl⟩
    exact bind_eq_ok_iff.2 ⟨name, hname, bind_eq_ok_iff.2 ⟨path, hpath, rfl⟩⟩

lemma ne_nil_of_read {rest : Text} {condition : Condition} (h : Condition.read rest = .ok condition) : rest ≠ [] := by
  rintro rfl
  exact absurd h (by rw [show Condition.read [] = .error .unsupportedCondition from rfl]; simp)

/-- A directive is taken if it is well formed and the outline takes its mark. -/
lemma directive_eq_ok_iff {limits : Limits} {line : Nat} {o o' : Outline} {keyword rest : Text} :
    directive limits line o keyword rest = .ok o' ↔
      ∃ mark, Instructs line keyword rest mark ∧ Takes limits o mark o' := by
  constructor
  · intro h
    -- the keywords are tried one after the other, as in the definition
    unfold directive at h
    split at h
    · rename_i hkeyword
      obtain ⟨opening, hopening, hblock⟩ := bind_eq_ok_iff.1 h
      obtain ⟨name, collection, path, hwords, hname, hpath, rfl⟩ := loopOf_eq_ok_iff.1 (locate_eq_ok_iff.1 hopening)
      exact ⟨.opens line (.loop name path), hkeyword ▸ .loop hwords hname hpath, openBlock_eq_ok_iff.1 hblock⟩
    split at h
    · rename_i hkeyword
      split at h
      · simp at h
      obtain ⟨condition, hcondition, hblock⟩ := bind_eq_ok_iff.1 h
      have hcondition := locate_eq_ok_iff.1 hcondition
      exact ⟨.opens line (.conditional condition), hkeyword ▸ .conditional hcondition, openBlock_eq_ok_iff.1 hblock⟩
    split at h
    · rename_i hkeyword
      split at h
      · simp at h
      rename_i hrest
      obtain rfl : rest = [] := by simpa using hrest
      exact ⟨.turns, hkeyword ▸ .alternative, turn_eq_ok_iff.1 (locate_eq_ok_iff.1 h)⟩
    split at h
    · rename_i hkeyword
      obtain ⟨name, hname, hblock⟩ := bind_eq_ok_iff.1 h
      have hname := locate_eq_ok_iff.1 hname
      obtain rfl := Path.eq_of_identifier hname
      exact ⟨.opens line (.region name), hkeyword ▸ .region hname, openBlock_eq_ok_iff.1 hblock⟩
    split at h
    · rename_i hkeyword
      dsimp only at h
      split at h
      · simp at h
      rename_i hpath
      rw [← Except.ok.inj h]
      exact ⟨.leaf (.inclusion (unquote rest)), hkeyword ▸ .inclusion (by simpa using hpath), .leaf o _⟩
    split at h
    · rename_i hkeyword
      exact ⟨.closes rest, hkeyword ▸ .close, closeBlock_eq_ok_iff.1 (locate_eq_ok_iff.1 h)⟩
    · simp at h
  · rintro ⟨mark, hmark, htakes⟩
    cases hmark with
    | loop hwords hname hpath =>
      have hloop := loopOf_eq_ok_iff.2 ⟨_, _, _, hwords, hname, hpath, rfl⟩
      exact bind_eq_ok_iff.2 ⟨_, locate_eq_ok_iff.2 hloop, openBlock_eq_ok_iff.2 htakes⟩
    | conditional hcondition =>
      have hblock := openBlock_eq_ok_iff.2 htakes
      simp only [directive, List.isEmpty_iff, ne_nil_of_read hcondition]
      exact bind_eq_ok_iff.2 ⟨_, locate_eq_ok_iff.2 hcondition, hblock⟩
    | alternative => exact locate_eq_ok_iff.2 (turn_eq_ok_iff.2 htakes)
    | region hname => exact bind_eq_ok_iff.2 ⟨_, locate_eq_ok_iff.2 hname, openBlock_eq_ok_iff.2 htakes⟩
    | inclusion hpath =>
      cases htakes
      simp [directive, List.isEmpty_iff, hpath, Leaf.node]
    | close => exact locate_eq_ok_iff.2 (closeBlock_eq_ok_iff.2 htakes)

/-- A substitution is read if and only if its path is. -/
lemma substitution_eq_ok_iff {inner raw : Text} {node : Node} :
    substitution inner raw = .ok node ↔ ∃ path, Path.read inner = .ok path ∧ node = .substitution path raw := by
  rw [substitution]
  constructor
  · intro h
    split at h
    · simp at h
    · obtain ⟨path, hpath, hnode⟩ := map_eq_ok_iff.1 h
      exact ⟨path, hpath, hnode.symm⟩
  · rintro ⟨path, hpath, rfl⟩
    have hinner : ¬ inner.isEmpty = true := by
      rintro hempty
      rw [List.isEmpty_iff.1 hempty] at hpath
      exact absurd hpath (by rw [show Path.read [] = .error (.invalidName []) from rfl]; simp)
    rw [if_neg hinner]
    exact map_eq_ok_iff.2 ⟨path, hpath, rfl⟩

/-- A token is taken if it is well formed and the outline takes its mark. -/
theorem step_eq_ok_iff {limits : Limits} {o o' : Outline} {token : Token} :
    step limits o token = .ok o' ↔ ∃ mark, Reads limits token mark ∧ Takes limits o mark o' := by
  constructor
  · intro h
    -- each kind of token is read in one way, and its mark is taken as it stands
    cases token with
    | text content =>
      rw [← Except.ok.inj h]
      exact ⟨.leaf (.literal content), .text content, .leaf o _⟩
    | expression inner raw line =>
      rw [step] at h
      split at h
      · simp at h
      rename_i hlength
      obtain ⟨node, hnode, rfl⟩ := map_eq_ok_iff.1 h
      obtain ⟨path, hpath, rfl⟩ := substitution_eq_ok_iff.1 (locate_eq_ok_iff.1 hnode)
      exact ⟨.leaf (.substitution path raw), .expression (Nat.le_of_not_lt hlength) hpath, .leaf o _⟩
    | directive body line =>
      rw [step] at h
      split at h
      · simp at h
      rename_i hlength
      obtain ⟨mark, hmark, htakes⟩ := directive_eq_ok_iff.1 h
      exact ⟨mark, .directive (Nat.le_of_not_lt hlength) hmark, htakes⟩
  · rintro ⟨mark, hreads, htakes⟩
    cases hreads with
    | text content =>
      cases htakes
      rfl
    | @expression inner raw line path hlength hpath =>
      cases htakes
      rw [step, if_neg (Nat.not_lt.2 hlength)]
      exact map_eq_ok_iff.2
        ⟨.substitution path raw, locate_eq_ok_iff.2 (substitution_eq_ok_iff.2 ⟨path, hpath, rfl⟩), rfl⟩
    | directive hlength hmark =>
      rw [step, if_neg (Nat.not_lt.2 hlength)]
      exact directive_eq_ok_iff.2 ⟨mark, hmark, htakes⟩

end Outline

/-! ## Runs -/

/-- A row of marks takes one outline to another. -/
inductive Runs (limits : Limits) : Outline → List Mark → Outline → Prop
  | nil (o : Outline) : Runs limits o [] o
  | cons {o o' o'' : Outline} {mark : Mark} {marks : List Mark} (first : Takes limits o mark o')
    (later : Runs limits o' marks o'') : Runs limits o (mark :: marks) o''

/-- An outline that takes marks and then more takes them all. -/
lemma Runs.append {limits : Limits} {o o' o'' : Outline} {marks marks' : List Mark} (h : Runs limits o marks o')
    (h' : Runs limits o' marks' o'') : Runs limits o (marks ++ marks') o'' := by
  induction h with
  | nil o => exact h'
  | cons first _ ih => exact .cons first (ih h')

/-- Tokens are taken one after the other if they mean marks that run. -/
lemma foldlM_step_eq_ok_iff {limits : Limits} {o o' : Outline} {tokens : List Token} :
    tokens.foldlM (Outline.step limits) o = .ok o' ↔
      ∃ marks, List.Forall₂ (Reads limits) tokens marks ∧ Runs limits o marks o' := by
  induction tokens generalizing o with
  | nil =>
    constructor
    · intro h
      rw [← Except.ok.inj h]
      exact ⟨[], .nil, .nil o⟩
    · rintro ⟨marks, ⟨⟩, ⟨⟩⟩
      rfl
  | cons token tokens ih =>
    rw [List.foldlM_cons, bind_eq_ok_iff]
    constructor
    · rintro ⟨between, hstep, hrest⟩
      obtain ⟨mark, hreads, htakes⟩ := Outline.step_eq_ok_iff.1 hstep
      obtain ⟨marks, hmarks, hruns⟩ := ih.1 hrest
      exact ⟨mark :: marks, .cons hreads hmarks, .cons htakes hruns⟩
    · rintro ⟨marks, ⟨⟩ | ⟨hreads, hmarks⟩, hruns⟩
      cases hruns with
      | cons htakes hruns =>
        exact ⟨_, Outline.step_eq_ok_iff.2 ⟨_, hreads, htakes⟩, ih.2 ⟨_, hmarks, hruns⟩⟩

/-! ### From the grammar to a run -/

/-- Marks that build a program add its nodes to the innermost body, as long as there is room for its blocks. -/
theorem runs_of_builds {limits : Limits} {room : Nat} {marks : List Mark} {program : Program}
    (h : Builds room marks program) (frames : List Frame) (hroom : frames.length + room = limits.maxNesting)
    (nodes : List Node) : Runs limits ⟨frames, nodes⟩ marks ⟨frames, program.reverse ++ nodes⟩ := by
  -- by induction on the grammar; the frames that are open and the room that is left make up the limit
  induction h generalizing frames nodes with
  | nil room => exact .nil _
  | leaf part _ ih =>
    have hlater := ih frames hroom (part.node :: nodes)
    rw [List.reverse_cons, List.append_assoc]
    exact .cons (.leaf _ part) hlater
  | @block room inner marks body program line heading _ _ ihinside ih =>
    have hinside := ihinside (⟨heading.opening, line, nodes⟩ :: frames)
      (by rw [List.length_cons]; omega) []
    have hlater := ih frames hroom (heading.opening.node body :: nodes)
    have hclose := @Takes.closes limits ⟨heading.opening, line, nodes⟩ frames (body.reverse ++ [])
    rw [List.append_nil, List.reverse_reverse] at hclose
    rw [List.append_nil] at hinside
    rw [List.reverse_cons, List.append_assoc]
    exact .cons (.opens line heading (by dsimp only; omega)) (hinside.append (.cons hclose hlater))
  | @branches room first second marks body otherwise program line condition _ _ _ ihfirst ihsecond ih =>
    have hfirst := ihfirst (⟨.conditional condition, line, nodes⟩ :: frames)
      (by rw [List.length_cons]; omega) []
    have hsecond := ihsecond (⟨.alternative condition body, line, nodes⟩ :: frames)
      (by rw [List.length_cons]; omega) []
    have hlater := ih frames hroom (.conditional condition body otherwise :: nodes)
    have hturn := @Takes.turns limits condition line nodes body.reverse frames
    have hclose := @Takes.closes limits ⟨.alternative condition body, line, nodes⟩ frames otherwise.reverse
    rw [List.append_nil] at hfirst hsecond
    rw [List.reverse_reverse] at hturn hclose
    rw [List.reverse_cons, List.append_assoc, List.cons_append, List.cons_append, List.append_assoc, List.cons_append]
    exact .cons (.opens line (.conditional condition) (by dsimp only; omega))
      (hfirst.append (.cons hturn (hsecond.append (.cons hclose hlater))))

/-! ### From a run to the grammar -/

/-- Marks complete an outline to a program: they build the rest of the innermost body, close its block or turn to its
second body, and so on until no block is open. -/
inductive Completes (limits : Limits) : Outline → List Mark → Program → Prop
  | last {nodes : List Node} {marks : List Mark} {program : Program} (inside : Builds limits.maxNesting marks program) :
    Completes limits ⟨[], nodes⟩ marks (nodes.reverse ++ program)
  | closed {room : Nat} {frame : Frame} {outer : List Frame} {nodes : List Node} {inner marks : List Mark}
    {body program : Program} (hroom : outer.length + (room + 1) = limits.maxNesting) (inside : Builds room inner body)
    (later : Completes limits ⟨outer, frame.opening.node (nodes.reverse ++ body) :: frame.before⟩ marks program) :
    Completes limits ⟨frame :: outer, nodes⟩ (inner ++ .closes frame.opening.keyword :: marks) program
  | turned {room line : Nat} {condition : Condition} {before nodes : List Node} {outer : List Frame}
    {inner marks : List Mark} {body program : Program} (hroom : outer.length + (room + 1) = limits.maxNesting)
    (inside : Builds room inner body)
    (later :
        Completes limits ⟨⟨.alternative condition (nodes.reverse ++ body), line, before⟩ :: outer, []⟩ marks program) :
    Completes limits ⟨⟨.conditional condition, line, before⟩ :: outer, nodes⟩ (inner ++ .turns :: marks) program

/-- What builds one more node in front of any others does so in front of what completes an outline. -/
lemma Completes.prepend {limits : Limits} {room : Nat} {o : Outline} {node : Node} {front marks : List Mark}
    {program : Program} (hroom : o.frames.length + room = limits.maxNesting)
    (hfront : ∀ {marks program}, Builds room marks program → Builds room (front ++ marks) (node :: program))
    (h : Completes limits (o.add node) marks program) : Completes limits o (front ++ marks) program := by
  obtain ⟨frames, nodes⟩ := o
  generalize hadd : Outline.add ⟨frames, nodes⟩ node = added at h
  cases h with
  | @last nodes' marks program inside =>
    obtain ⟨rfl, rfl⟩ := Outline.mk.inj hadd
    obtain rfl : room = limits.maxNesting := by simpa using hroom
    rw [List.reverse_cons, List.append_assoc]
    exact .last (hfront inside)
  | @closed room' frame outer nodes' inner marks body program hroom' inside later =>
    obtain ⟨rfl, rfl⟩ := Outline.mk.inj hadd
    obtain rfl : room = room' := by simp only [List.length_cons] at hroom; omega
    rw [List.reverse_cons, List.append_assoc] at later
    rw [← List.append_assoc]
    exact .closed hroom' (hfront inside) later
  | @turned room' line condition before nodes' outer inner marks body program hroom' inside later =>
    obtain ⟨rfl, rfl⟩ := Outline.mk.inj hadd
    obtain rfl : room = room' := by simp only [List.length_cons] at hroom; omega
    rw [List.reverse_cons, List.append_assoc] at later
    rw [← List.append_assoc]
    exact .turned hroom' (hfront inside) later

/-- An opened block that is completed is a node in front of what completes the outline around it. -/
lemma Completes.of_opened {limits : Limits} {o : Outline} {line : Nat} {heading : Heading} {marks : List Mark}
    {program : Program} (h : Completes limits ⟨⟨heading.opening, line, o.nodes⟩ :: o.frames, []⟩ marks program) :
    Completes limits o (.opens line heading :: marks) program := by
  generalize hopened : Outline.mk (⟨heading.opening, line, o.nodes⟩ :: o.frames) [] = opened at h
  cases h with
  | last inside => simp at hopened
  | @closed room frame outer nodes inner marks body program hroom inside later =>
    obtain ⟨hframes, rfl⟩ := Outline.mk.inj hopened
    obtain ⟨rfl, rfl⟩ := List.cons.inj hframes
    have hblock : ∀ {marks program}, Builds (room + 1) marks program →
        Builds (room + 1) (.opens line heading :: inner ++ [.closes heading.opening.keyword] ++ marks)
          (heading.opening.node body :: program) := by
      intro marks program hlater
      rw [List.append_assoc]
      exact .block line heading inside hlater
    have := Completes.prepend hroom hblock later
    rwa [List.append_assoc] at this
  | @turned room line' condition before nodes outer inner marks body program hroom inside later =>
    obtain ⟨hframes, rfl⟩ := Outline.mk.inj hopened
    obtain ⟨hframe, rfl⟩ := List.cons.inj hframes
    obtain ⟨hheading, rfl, rfl⟩ := Frame.mk.inj hframe
    obtain rfl : heading = .conditional condition := by cases heading <;> simp_all [Heading.opening]
    -- the second body is open now, and can only be closed
    generalize hturned : Outline.mk (_ :: o.frames) [] = turned at later
    cases later with
    | last inside' => simp at hturned
    | @closed room' frame outer nodes inner' marks body' program hroom' inside' later =>
      obtain ⟨hframes, rfl⟩ := Outline.mk.inj hturned
      obtain ⟨rfl, rfl⟩ := List.cons.inj hframes
      obtain rfl : room = room' := by omega
      have hblock : ∀ {marks program}, Builds (room + 1) marks program →
          Builds (room + 1)
            (.opens line (.conditional condition) :: inner ++ .turns :: inner' ++ [.closes "IF"] ++ marks)
            (.conditional condition body body' :: program) := by
        intro marks program hlater
        rw [List.append_assoc]
        exact .branches line condition inside inside' hlater
      have := Completes.prepend hroom hblock later
      simp only [List.append_assoc, List.cons_append, List.nil_append] at this
      exact this
    | turned hroom' inside' later => simp at hturned

/-- Marks that a run takes to an outline without open blocks complete the outline in front of them. -/
theorem completes_of_runs {limits : Limits} {o o' : Outline} {marks : List Mark} (h : Runs limits o marks o')
    (hend : o'.frames = []) (hframes : o.frames.length ≤ limits.maxNesting) :
    Completes limits o marks o'.nodes.reverse := by
  -- by induction on the run; each mark completes one frame more or less than those behind it
  induction h with
  | nil o =>
    obtain ⟨frames, nodes⟩ := o
    obtain rfl : frames = [] := hend
    have := @Completes.last limits nodes [] [] (.nil _)
    rwa [List.append_nil] at this
  | @cons o next o' mark marks first _ ih =>
    cases first with
    | leaf o part =>
      have hroom : o.frames.length + (limits.maxNesting - o.frames.length) = limits.maxNesting := by omega
      show Completes limits o ([.leaf part] ++ marks) _
      exact Completes.prepend hroom (.leaf part) (ih hend hframes)
    | opens line heading hroom => exact .of_opened (ih hend (by simpa using Nat.succ_le_of_lt hroom))
    | turns condition line before nodes outer =>
      have hroom : outer.length + (limits.maxNesting - (outer.length + 1) + 1) = limits.maxNesting := by
        simp only [List.length_cons] at hframes
        omega
      refine .turned hroom (.nil _) ?_
      rw [List.append_nil]
      exact ih hend hframes
    | closes frame outer nodes =>
      simp only [List.length_cons] at hframes
      have hroom : outer.length + (limits.maxNesting - (outer.length + 1) + 1) = limits.maxNesting := by omega
      refine .closed hroom (.nil _) ?_
      rw [List.append_nil]
      exact ih hend (by simp only; omega)

/-! ## Programs -/

/-- The tokens of a program are well formed, and their marks build it. -/
lemma Program.ofTokens_eq_ok_iff {limits : Limits} {tokens : List Token} {program : Program} :
    ofTokens limits tokens = .ok program ↔
      ∃ marks, List.Forall₂ (Reads limits) tokens marks ∧ Builds limits.maxNesting marks program := by
  rw [ofTokens, bind_eq_ok_iff]
  constructor
  · rintro ⟨o, hfold, hfinish⟩
    obtain ⟨marks, hmarks, hruns⟩ := foldlM_step_eq_ok_iff.1 hfold
    obtain ⟨frames, nodes⟩ := o
    cases frames with
    | cons frame outer => simp [Outline.finish] at hfinish
    | nil =>
      obtain rfl : nodes.reverse = program := Except.ok.inj hfinish
      have hcompletes := completes_of_runs hruns rfl (Nat.zero_le _)
      refine ⟨marks, hmarks, ?_⟩
      -- nothing is open at the end, so only the last rule is left
      generalize hempty : Outline.empty = o, hnodes : nodes.reverse = program at hcompletes
      cases hcompletes with
      | last inside =>
        obtain ⟨-, rfl⟩ := Outline.mk.inj hempty
        exact inside
      | closed hroom inside later => simp [Outline.empty] at hempty
      | turned hroom inside later => simp [Outline.empty] at hempty
  · rintro ⟨marks, hmarks, hbuilds⟩
    refine ⟨⟨[], program.reverse⟩, foldlM_step_eq_ok_iff.2 ⟨marks, hmarks, ?_⟩, ?_⟩
    · have := runs_of_builds hbuilds [] (Nat.zero_add _) []
      rwa [List.append_nil] at this
    · simp [Outline.finish]

lemma Program.ofSource_of_tokens {limits : Limits} {t : Text} {tokens : List Token}
    (h : Token.ofSource t = .ok tokens) :
    ofSource limits t = ofTokens limits tokens := by
  rw [ofSource, h]
  rfl

/-- A template is a program if its tokens are well formed and within their bound and their marks build one. Then it has
a node for each token that becomes one, in the order of the template: its inclusions are those of its tokens, and its
nodes are as many as these. No template is refused because a directive were unknown. -/
theorem Program.ofSource_builds (limits : Limits) (t : Text) :
    (∀ tokens, Token.ofSource t = .ok tokens → ∀ program, ofSource limits t = .ok program ↔
      ∃ marks, List.Forall₂ (Reads limits) tokens marks ∧ Builds limits.maxNesting marks program) ∧
    (∀ tokens program, Token.ofSource t = .ok tokens → ofSource limits t = .ok program →
      List.Forall₂ (Shows limits) (tokens.filter Token.makesNode) (heads program) ∧
        inclusions program = tokens.filterMap Token.inclusionPath? ∧
        nodeCount program = tokens.countP Token.makesNode) ∧
    ∀ line, ofSource limits t ≠ .error (.defect line .unknownDirective) := by
  refine ⟨fun tokens htokens program => ?_, fun tokens program htokens hprogram => ?_, ofSource_ne_unknown limits t⟩
  · rw [ofSource_of_tokens htokens, ofTokens_eq_ok_iff]
  · rw [ofSource_of_tokens htokens] at hprogram
    obtain ⟨marks, hmarks, hbuilds⟩ := ofTokens_eq_ok_iff.1 hprogram
    have hshows := forall₂_shows hmarks
    rw [← hbuilds.heads_eq] at hshows
    refine ⟨hshows, ?_, ?_⟩
    · rw [inclusions_eq_filterMap_heads, hbuilds.heads_eq, filterMap_inclusionPath?_eq hmarks]
    · rw [← length_heads, ← hshows.length_eq, List.countP_eq_length_filter]

end Stencil.Template
