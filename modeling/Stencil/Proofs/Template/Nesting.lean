import Stencil.Proofs.Template.Building

/-!
# Blocks inside each other

How deep a program is (`Program.depth`), against the limit that it is read under. The grammar gives room for so many
blocks inside each other, and a program needs as much room as it is deep (`Builds.depth_le`, `Builds.of_depth_le`).

Main statement: a template that is read under some limit is read as the same program under any other that it is not too
deep for, and is refused as too deep under the rest (`Program.ofSource_of_nesting`).
-/

namespace Stencil.Template

/-! ## Depth -/

namespace Program

/-- How many blocks of a program lie inside each other at most. -/
def depth : Program → Nat
  | [] => 0
  | node :: rest => max (ofNode node) (depth rest)
where
  /-- A block is one deeper than its bodies. -/
  ofNode : Node → Nat
    | .loop _ _ body => depth body + 1
    | .conditional _ body otherwise => max (depth body) (depth otherwise) + 1
    | .region _ body => depth body + 1
    | .literal _ => 0
    | .substitution _ _ => 0
    | .inclusion _ => 0

lemma depth_leaf_cons (leaf : Leaf) (program : Program) : depth (leaf.node :: program) = depth program := by
  cases leaf <;> exact Nat.zero_max _

/-- A block is one level deeper than its body. -/
lemma depth_block_cons (heading : Heading) (body program : Program) :
    depth (heading.opening.node body :: program) = max (depth body + 1) (depth program) := by
  cases heading with
  | conditional condition =>
    show max (max (depth body) 0 + 1) (depth program) = _
    rw [Nat.max_zero]
  | loop name collection => rfl
  | region name => rfl

lemma depth_branches_cons (condition : Condition) (body otherwise program : Program) :
    depth (.conditional condition body otherwise :: program) =
      max (max (depth body) (depth otherwise) + 1) (depth program) := rfl

end Program

/-! ## Room -/

/-- What is built is no deeper than the room that there was. -/
theorem Builds.depth_le {room : Nat} {marks : List Mark} {program : Program} (h : Builds room marks program) :
    program.depth ≤ room := by
  induction h with
  | nil room => exact Nat.zero_le room
  | leaf part _ ih =>
    rw [Program.depth_leaf_cons]
    exact ih
  | block line heading _ _ ihinside ih =>
    rw [Program.depth_block_cons]
    omega
  | branches line condition _ _ _ ihinside ihinside' ih =>
    rw [Program.depth_branches_cons]
    omega

/-- Room for the depth of a program is enough to build it. -/
theorem Builds.of_depth_le {room room' : Nat} {marks : List Mark} {program : Program} (h : Builds room marks program)
    (hdepth : program.depth ≤ room') : Builds room' marks program := by
  induction h generalizing room' with
  | nil room => exact .nil room'
  | leaf part _ ih =>
    rw [Program.depth_leaf_cons] at hdepth
    exact .leaf part (ih hdepth)
  | block line heading _ _ ihinside ih =>
    rw [Program.depth_block_cons] at hdepth
    obtain ⟨room, rfl⟩ : ∃ room, room' = room + 1 := ⟨room' - 1, by omega⟩
    exact .block line heading (ihinside (by omega)) (ih (by omega))
  | branches line condition _ _ _ ihinside ihinside' ih =>
    rw [Program.depth_branches_cons] at hdepth
    obtain ⟨room, rfl⟩ : ∃ room, room' = room + 1 := ⟨room' - 1, by omega⟩
    exact .branches line condition (ihinside (by omega)) (ihinside' (by omega)) (ih (by omega))

/-! ## Limits -/

section Limits

variable {limits limits' : Limits} {o o' : Outline} {token : Token} {mark : Mark}

/-- What a token means does not depend on the room for blocks. -/
lemma Reads.of_length (h : Reads limits token mark)
    (hlength : limits'.maxExpressionLength = limits.maxExpressionLength) : Reads limits' token mark := by
  cases h with
  | text content => exact .text content
  | expression hinner hpath => exact .expression (hlength ▸ hinner) hpath
  | directive hbody hmark => exact .directive (hlength ▸ hbody) hmark

namespace Outline

/-- Where no block may be opened any more, a directive that would open one is refused. -/
lemma directive_of_opens {line line' : Nat} {keyword rest : Text} {heading : Heading}
    (h : Instructs line keyword rest (.opens line' heading)) (hfull : limits.maxNesting ≤ o.frames.length) :
    directive limits line o keyword rest = .error .tooDeep := by
  have hopen : ∀ opening, openBlock limits line o opening = .error .tooDeep := fun _ => if_pos hfull
  cases h with
  | @loop rest name collection path hwords hname hpath =>
    have hloop := loopOf_eq_ok_iff.2 ⟨name, collection, path, hwords, hname, hpath, rfl⟩
    rw [directive, if_pos rfl, hloop]
    exact hopen _
  | @conditional rest condition hcondition =>
    have hne : rest.isEmpty = false := by simpa using ne_nil_of_read hcondition
    rw [directive, if_neg (by decide), if_pos rfl, hne, hcondition]
    exact hopen _
  | region hname =>
    rw [directive, if_neg (by decide), if_neg (by decide), if_neg (by decide), if_pos rfl, hname]
    exact hopen _

/-- A token that is taken under one limit is taken under another, or there is no room for one more block. -/
lemma step_of_nesting (hlength : limits'.maxExpressionLength = limits.maxExpressionLength)
    (h : step limits o token = .ok o') : step limits' o token = .ok o' ∨ step limits' o token = .error .tooDeep := by
  obtain ⟨mark, hreads, htakes⟩ := step_eq_ok_iff.1 h
  have hreads := hreads.of_length hlength
  cases htakes with
  | leaf _ part => exact .inl (step_eq_ok_iff.2 ⟨_, hreads, .leaf o part⟩)
  | turns condition line before nodes outer =>
    exact .inl (step_eq_ok_iff.2 ⟨_, hreads, .turns condition line before nodes outer⟩)
  | closes frame outer nodes => exact .inl (step_eq_ok_iff.2 ⟨_, hreads, .closes frame outer nodes⟩)
  | opens line heading _ =>
    by_cases hroom : o.frames.length < limits'.maxNesting
    · exact .inl (step_eq_ok_iff.2 ⟨_, hreads, .opens line heading hroom⟩)
    · cases hreads with
      | directive hbody hmark =>
        rw [step, if_neg (Nat.not_lt.2 hbody)]
        exact .inr (directive_of_opens hmark (Nat.le_of_not_lt hroom))

/-- Under another bound on nesting, an outline is built alike or is too deep. -/
lemma foldlM_of_nesting {tokens : List Token} (hlength : limits'.maxExpressionLength = limits.maxExpressionLength)
    (h : tokens.foldlM (step limits) o = .ok o') :
    tokens.foldlM (step limits') o = .ok o' ∨ tokens.foldlM (step limits') o = .error .tooDeep := by
  induction tokens generalizing o with
  | nil => exact .inl h
  | cons token tokens ih =>
    rw [List.foldlM_cons] at h ⊢
    obtain ⟨between, hstep, hrest⟩ := bind_eq_ok_iff.1 h
    rcases step_of_nesting hlength hstep with hstep' | hdeep
    · rw [hstep']
      exact ih hrest
    · rw [hdeep]
      exact .inr rfl

end Outline

/-- A template that is a program under some limit is the same one under every limit that it is not too deep for, and is
refused as too deep under the others. -/
theorem Program.ofSource_of_nesting {t : Text} {program : Program}
    (hlength : limits'.maxExpressionLength = limits.maxExpressionLength) (h : ofSource limits t = .ok program) :
    ofSource limits' t = if program.depth ≤ limits'.maxNesting then .ok program else .error .tooDeep := by
  obtain ⟨tokens, htokens, hprogram⟩ := bind_eq_ok_iff.1 h
  obtain ⟨marks, hmarks, hbuilds⟩ := ofTokens_eq_ok_iff.1 hprogram
  rw [ofSource_of_tokens htokens]
  split
  · rename_i hdepth
    have hmarks' : List.Forall₂ (Reads limits') tokens marks := hmarks.imp fun _ _ hreads => hreads.of_length hlength
    exact ofTokens_eq_ok_iff.2 ⟨marks, hmarks', hbuilds.of_depth_le hdepth⟩
  · rename_i hdepth
    obtain ⟨o, hfold, hfinish⟩ := bind_eq_ok_iff.1 hprogram
    rcases Outline.foldlM_of_nesting hlength hfold with hfold' | hdeep
    · -- all blocks would have had room
      have hsame : ofTokens limits' tokens = .ok program := bind_eq_ok_iff.2 ⟨o, hfold', hfinish⟩
      obtain ⟨_, -, hbuilds'⟩ := ofTokens_eq_ok_iff.1 hsame
      exact absurd hbuilds'.depth_le hdepth
    · rw [ofTokens, hdeep]
      rfl

end Limits

/-! ## Conditions inside each other -/

/-- A comment without a hyphen in front of a text is scanned before it. -/
lemma Scan.comment {body rest last : Text} {pieces : List Piece} (hbody : '-' ∉ body)
    (later : Scan rest pieces last) :
    Scan ((Piece.block .comment body).source ++ rest) (.block .comment body :: pieces) last := by
  have hcloser : Closes .comment (BlockKind.closer .comment ++ rest) [] rest := ⟨rfl, fun _ _ _ => Nat.zero_le _⟩
  have hcloses : Closes .comment (body ++ (BlockKind.closer .comment ++ rest)) (body ++ []) rest :=
    hcloser.prepend hbody
  rw [List.append_nil] at hcloses
  have hopens : Opens ((Piece.block .comment body).source ++ rest) [] .comment
      (body ++ (BlockKind.closer .comment ++ rest)) :=
    ⟨by simp [Piece.source], fun _ _ _ _ => Nat.zero_le _⟩
  exact .block hopens hcloses later

namespace Token

/-- A row of directives on the first line has a token for each. -/
lemma ofPieces_of_bodies {bodies : List Text}
    (h : ∀ body ∈ bodies, '\n' ∉ body ∧ isDirective (Text.trim body) = true) :
    ofPieces 1 (bodies.map (Piece.block .comment)) = bodies.map fun body => .directive (Text.trim body) 1 := by
  induction bodies with
  | nil => rfl
  | cons body bodies ih =>
    obtain ⟨hline, hdirective⟩ := h body List.mem_cons_self
    have hsame : 1 + Piece.newlines (Piece.block .comment body).source = 1 := by
      have hbody : Piece.newlines body = 0 := List.count_eq_zero.2 hline
      rw [Piece.source, Piece.newlines_append, Piece.newlines_append, hbody]
      rfl
    have hlater := ih fun b hb => h b (List.mem_cons_of_mem _ hb)
    rw [List.map_cons, List.map_cons, ofPieces, if_pos hdirective, hsame, hlater]

/-- A template that is a row of directives on one line, without a text between them, has a token for each. -/
lemma ofSource_of_bodies {bodies : List Text} (hhyphen : ∀ body ∈ bodies, '-' ∉ body)
    (h : ∀ body ∈ bodies, '\n' ∉ body ∧ isDirective (Text.trim body) = true) :
    ofSource ((bodies.map (Piece.block .comment)).flatMap Piece.source) =
      .ok (bodies.map fun body => .directive (Text.trim body) 1) := by
  have hscan : Scan ((bodies.map (Piece.block .comment)).flatMap Piece.source) (bodies.map (Piece.block .comment))
      [] := by
    clear h
    induction bodies with
    | nil => exact .here []
    | cons body bodies ih =>
      exact .comment (hhyphen body List.mem_cons_self) (ih fun b hb => hhyphen b (List.mem_cons_of_mem _ hb))
  have hplain : Plain [] := fun kind hopener => kind.opener_ne_nil (List.infix_nil.1 hopener)
  have hpieces : Piece.ofSource 1 _ = .ok _ :=
    Piece.ofSource_eq_ok_iff.2 ⟨_, _, hscan, hplain, (List.append_nil _).symm⟩
  rw [ofSource_of_pieces hpieces, ofPieces_of_bodies h]

end Token

/-- So many conditions inside each other, all of which hold. -/
def tower : Nat → Program
  | 0 => []
  | n + 1 => [.conditional (.truthy (.int 1)) (tower n) []]

/-- The directives that a tower is written with, without a text between them. -/
def towerBodies (n : Nat) : List Text := List.replicate n ("IF 1" : Text) ++ List.replicate n ("END IF" : Text)

/-- A tower as it is written. -/
def towerText (n : Nat) : Text := ((towerBodies n).map (Piece.block .comment)).flatMap Piece.source

/-- Conditionals around each other are built of their headings and as many closes. -/
lemma builds_tower (n : Nat) :
    Builds n (List.replicate n (.opens 1 (.conditional (.truthy (.int 1)))) ++ List.replicate n (.closes "IF"))
      (tower n) := by
  induction n with
  | zero => exact .nil 0
  | succ n ih =>
    have hcloses : List.replicate (n + 1) (Mark.closes "IF") = List.replicate n (.closes "IF") ++ [.closes "IF"] :=
      List.replicate_succ'
    rw [List.replicate_succ, hcloses, List.cons_append, ← List.append_assoc]
    exact .block 1 (.conditional (.truthy (.int 1))) ih (.nil _)

lemma depth_tower (n : Nat) : (tower n).depth = n := by
  induction n with
  | zero => rfl
  | succ n ih =>
    rw [tower, Program.depth_branches_cons, ih]
    simp [Program.depth]

lemma forall₂_replicate {α β : Type} {R : α → β → Prop} {a : α} {b : β} (h : R a b) (n : Nat) :
    List.Forall₂ R (List.replicate n a) (List.replicate n b) := by
  induction n with
  | zero => exact .nil
  | succ n ih => exact .cons h ih

/-- A tower is read if there is room for its directives, and for as many blocks inside each other. -/
lemma ofSource_towerText {limits : Limits} {n : Nat} (hlength : 6 ≤ limits.maxExpressionLength)
    (hnesting : n ≤ limits.maxNesting) : Program.ofSource limits (towerText n) = .ok (tower n) := by
  have hbodies : ∀ body ∈ towerBodies n, body = "IF 1" ∨ body = "END IF" := fun body hbody =>
    (List.mem_append.1 hbody).imp List.eq_of_mem_replicate List.eq_of_mem_replicate
  have htokens : Token.ofSource (towerText n) =
      .ok ((towerBodies n).map fun body => .directive (Text.trim body) 1) := by
    refine Token.ofSource_of_bodies (fun body hbody => ?_) (fun body hbody => ?_)
    · rcases hbodies body hbody with rfl | rfl <;> decide
    · rcases hbodies body hbody with rfl | rfl <;> decide
  have hopens : Reads limits (.directive (Text.trim "IF 1") 1) (.opens 1 (.conditional (.truthy (.int 1)))) :=
    .directive (Nat.le_trans (by decide) hlength) (.conditional rfl)
  have hcloses : Reads limits (.directive (Text.trim "END IF") 1) (.closes "IF") :=
    .directive hlength .close
  have hmarks := List.rel_append (forall₂_replicate hopens n) (forall₂_replicate hcloses n)
  have hbuilds := (builds_tower n).of_depth_le ((depth_tower n).symm ▸ hnesting)
  rw [Program.ofSource_of_tokens htokens, towerBodies, List.map_append, List.map_replicate, List.map_replicate]
  exact Program.ofTokens_eq_ok_iff.2 ⟨_, hmarks, hbuilds⟩

end Stencil.Template
