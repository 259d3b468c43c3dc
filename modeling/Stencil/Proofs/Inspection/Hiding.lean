import Stencil.Proofs.Inspection.Directives

/-!
# What is hidden from the inspection

The inspection of a template blanks what it takes for directives; what is one is decided by the scan of the template.
The inspection sees, from the left, one comment after the other that seems to be a directive, and none inside of another
(`Seen`). The scan sees comments in the same way, but only those that are not inside of other blocks.

Main statement: the two views agree exactly if no directive seems to begin inside of an expression, a note or another
comment; in any case every directive is blanked (`blankedSpans_eq_iff`). They do not agree in a note that leaves a
comment open, and then what is blanked may be text that is put out (`exists_hidden_text`).
-/

namespace Stencil.Inspection

open Pattern Template

variable {t body rest : Text}

/-! ## Spans -/

/-- The spans that the marked stretches of a row cover, in bytes from an offset on. -/
def spansFrom : Nat → List (Bool × Text) → List (Nat × Nat)
  | _, [] => []
  | offset, (false, s) :: rest => spansFrom (offset + Text.byteLength s) rest
  | offset, (true, s) :: rest =>
    (offset, offset + Text.byteLength s) :: spansFrom (offset + Text.byteLength s) rest

/-- A part of a text, and whether it is blanked. -/
def blankedPart (part : Part) : Bool × Text := (part.match?.isSome, part.source)

/-- The stretches of a text, and which of them are blanked. -/
def blankedRow (t : Text) : List (Bool × Text) := (directiveComment.parts t).map blankedPart

/-- The spans that are blanked. -/
def blankedSpans (t : Text) : List (Nat × Nat) := spansFrom 0 (blankedRow t)

/-- Whether a piece becomes a directive. -/
def becomesDirective (piece : Piece) : Bool :=
  match Token.ofPiece? [] piece with
  | some (.directive _ _) => true
  | _ => false

/-- Pieces as they stand in a template, and which of them become directives. -/
def directiveRow (pieces : List Piece) : List (Bool × Text) :=
  pieces.map fun piece => (becomesDirective piece, piece.source)

/-- The spans of the pieces that become directives. -/
def directiveSpans (pieces : List Piece) : List (Nat × Nat) := spansFrom 0 (directiveRow pieces)

/-- Spaces are written for the stretches that are blanked, as many as they have bytes, and the others are kept. -/
theorem blankDirectives_eq_flatMap (t : Text) :
    (blankedRow t).flatMap Prod.snd = t ∧
      blankDirectives t =
        (blankedRow t).flatMap fun (blanked, s) => if blanked then List.replicate (Text.byteLength s) ' ' else s := by
  constructor
  · rw [blankedRow, List.flatMap_map]
    exact flatten_parts directiveComment t
  · rw [blankedRow, List.flatMap_map, blankDirectives, replaceAll_eq_flatMap]
    congr 1
    funext part
    cases part <;> rfl

/-! ### Seen from the left -/

/-- The spans at which directives are seen in a text from an offset on: each at the first place where one seems to
begin, and the next behind its end. -/
inductive Seen : Nat → Text → List (Nat × Nat) → Prop
  | nil (offset : Nat) : Seen offset [] []
  | skip {offset : Nat} {c : Char} {t : Text} {spans : List (Nat × Nat)}
    (none : ∀ body rest, ¬ SeemsDirective (c :: t) body rest) (later : Seen (offset + c.utf8Size) t spans) :
    Seen offset (c :: t) spans
  | found {offset : Nat} {t body rest : Text} {spans : List (Nat × Nat)} (here : SeemsDirective t body rest)
    (later : Seen (offset + Text.byteLength (Piece.block .comment body).source) rest spans) :
    Seen offset t ((offset, offset + Text.byteLength (Piece.block .comment body).source) :: spans)

lemma spansFrom_consPlain (offset : Nat) (c : Char) (parts : List Part) :
    spansFrom offset ((consPlain c parts).map blankedPart) =
      spansFrom (offset + c.utf8Size) (parts.map blankedPart) := by
  unfold consPlain
  split
  · show spansFrom (offset + (c.utf8Size + _)) _ = spansFrom (offset + c.utf8Size + _) _
    rw [Nat.add_assoc]
    rfl
  · rfl

lemma source_ne_nil (kind : BlockKind) (body : Text) : (Piece.block kind body).source ≠ [] := by
  rw [Piece.source, List.append_assoc]
  exact List.append_ne_nil_of_left_ne_nil kind.opener_ne_nil _

/-- What the pattern of directives cuts a text into is what is seen from the left. -/
lemma seen_partsFrom (offset position : Nat) (previous : Option Char) (t : Text) :
    Seen offset t (spansFrom offset ((partsFrom directiveComment 0 position previous t).map blankedPart)) := by
  generalize hn : t.length = n
  -- by strong induction on the length: a match takes a whole directive
  induction n using Nat.strong_induction_on generalizing offset position previous t with
  | _ n ih =>
    cases t with
    | nil => exact .nil offset
    | cons c t =>
      by_cases hseems : ∃ body rest, SeemsDirective (c :: t) body rest
      · obtain ⟨body, rest, hseems⟩ := hseems
        obtain ⟨m, hm, htext⟩ := exists_matchAt?_of_seems hseems position previous
        have hne := source_ne_nil .comment body
        have hshorter : rest.length < n := by
          have hlength := congrArg List.length hseems.eq
          have := List.length_pos_iff.2 hne
          rw [List.length_append] at hlength
          omega
        have hspans := ih rest.length hshorter (offset + Text.byteLength (Piece.block .comment body).source)
          (position + (Piece.block .comment body).source.length) (Piece.block .comment body).source.getLast? rest rfl
        rw [hseems.eq] at hm ⊢
        rw [partsFrom_of_matchAt? hm htext hne, List.map_cons, show blankedPart (.found m) = (true, m.text) from rfl,
          htext]
        exact .found (hseems.eq ▸ hseems) hspans
      · have hnone : directiveComment.matchAt? position previous (c :: t) = none := by
          by_contra hsome
          obtain ⟨m, hm⟩ := Option.ne_none_iff_exists'.1 hsome
          obtain ⟨body, rest, h, -⟩ := exists_seems_of_matchAt? hm
          exact hseems ⟨body, rest, h⟩
        rw [partsFrom, hnone]
        dsimp only
        rw [spansFrom_consPlain]
        exact .skip (fun body rest h => hseems ⟨body, rest, h⟩) (ih t.length (by rw [← hn]; simp) _ _ _ t rfl)

lemma seen_blankedSpans (t : Text) : Seen 0 t (blankedSpans t) := by
  rw [blankedSpans, blankedRow, parts_eq]
  exact seen_partsFrom 0 0 none t

/-! ## Segments in which nothing is seen -/

/-- No directive seems to begin in a segment of a text. -/
def Quiet (segment behind : Text) : Prop :=
  ∀ a b, segment = a ++ b → b ≠ [] → ∀ body rest, ¬ SeemsDirective (b ++ behind) body rest

variable {segment behind : Text} {offset : Nat} {spans : List (Nat × Nat)}

lemma quiet_nil (behind : Text) : Quiet [] behind :=
  fun _ _ heq hne => absurd (List.append_eq_nil_iff.1 heq.symm).2 hne

/-- A segment is quiet if no directive seems to begin at its first character or behind it. -/
lemma quiet_cons_iff {c : Char} :
    Quiet (c :: segment) behind ↔
      (∀ body rest, ¬ SeemsDirective (c :: (segment ++ behind)) body rest) ∧ Quiet segment behind := by
  constructor
  · intro h
    exact ⟨h [] (c :: segment) rfl (List.cons_ne_nil _ _), fun a b heq => h (c :: a) b (by rw [heq]; rfl)⟩
  · rintro ⟨hhere, hlater⟩ a b heq hne
    cases a with
    | nil =>
      obtain rfl : c :: segment = b := heq
      exact hhere
    | cons d a => exact hlater a b (List.cons.inj heq).2 hne

/-- Where nothing seems to begin, nothing is seen. -/
lemma Seen.of_quiet (h : Seen offset (segment ++ behind) spans) (hquiet : Quiet segment behind) :
    Seen (offset + Text.byteLength segment) behind spans := by
  induction segment generalizing offset with
  | nil => exact h
  | cons c segment ih =>
    obtain ⟨hhere, hlater⟩ := quiet_cons_iff.1 hquiet
    cases h with
    | skip _ later =>
      rw [Text.byteLength_cons, ← Nat.add_assoc]
      exact ih later hlater
    | found here => exact absurd here (hhere _ _)

/-- Where a directive seems to begin it is seen. -/
lemma Seen.of_seems (h : Seen offset t spans) (hseems : SeemsDirective t body rest) :
    ∃ later, spans = (offset, offset + Text.byteLength (Piece.block .comment body).source) :: later ∧
      Seen (offset + Text.byteLength (Piece.block .comment body).source) rest later := by
  cases h with
  | nil => exact absurd (List.prefix_nil.1 hseems.opener_prefix) (by decide)
  | skip none => exact absurd hseems (none _ _)
  | found here later =>
    obtain ⟨rfl, rfl⟩ := hseems.unique here
    exact ⟨_, rfl, later⟩

/-- If one seems to begin in a segment, the first that is seen begins in the segment. -/
lemma Seen.exists_of_not_quiet (h : Seen offset (segment ++ behind) spans) (hquiet : ¬ Quiet segment behind) :
    ∃ span later, spans = span :: later ∧ span.1 < offset + Text.byteLength segment := by
  induction segment generalizing offset with
  | nil => exact absurd (quiet_nil behind) hquiet
  | cons c segment ih =>
    cases h with
    | skip none later =>
      have hlater : ¬ Quiet segment behind := fun hlater => hquiet (quiet_cons_iff.2 ⟨none, hlater⟩)
      obtain ⟨span, spans', heq, hspan⟩ := ih later hlater
      refine ⟨span, spans', heq, ?_⟩
      rw [Text.byteLength_cons]
      omega
    | found =>
      refine ⟨_, _, rfl, ?_⟩
      have hwidth := Char.utf8Size_pos c
      rw [Text.byteLength_cons]
      dsimp only
      omega

/-- Nothing is seen in a text without the beginning of a comment. -/
lemma quiet_of_not_prefix (h : ∀ a b, segment = a ++ b → b ≠ [] → ¬ "<!--".toList <+: b ++ behind) :
    Quiet segment behind :=
  fun a b heq hne _ _ hseems => h a b heq hne hseems.opener_prefix

/-- In a block that is no directive one seems to begin only inside of it. -/
lemma quiet_block_iff {kind : BlockKind} (hcloses : Closes kind (body ++ kind.closer ++ behind) body behind)
    (hnot : becomesDirective (.block kind body) = false) :
    Quiet (Piece.block kind body).source behind ↔ Quiet body (kind.closer ++ behind) := by
  constructor
  · rintro h a b rfl hne body' rest'
    have := h (kind.opener ++ a) (b ++ kind.closer) (by simp [Piece.source])
      (List.append_ne_nil_of_left_ne_nil hne _) body' rest'
    rwa [List.append_assoc] at this
  · intro h a b hsource hne body' rest' hseems
    obtain ⟨more, hmore⟩ := hseems.opener_prefix
    obtain ⟨c, b, rfl⟩ := List.exists_cons_of_ne_nil hne
    obtain rfl : '<' = c := (List.cons.inj hmore).1
    rcases suffix_of_source hsource with ⟨rfl, rfl⟩ | ⟨v, u, rfl, rfl⟩
    · -- the whole block would be a directive
      rw [List.nil_append] at hsource
      rw [← hsource] at hseems
      obtain ⟨rfl, -⟩ := eq_of_comment_append hcloses hseems.closes hseems.eq
      have hkeyword := hseems.keyword
      simp [becomesDirective, Token.ofPiece?, Token.isDirective_trim, hkeyword] at hnot
    · refine h v ('<' :: u) rfl (List.cons_ne_nil _ _) body' rest' ?_
      rwa [← List.append_assoc, List.cons_append]

/-! ## The view of the scan -/

/-- Inside of no block that is no directive does one seem to begin. -/
def NoneInside (pieces : List Piece) : Prop :=
  ∀ front kind body rest, pieces = front ++ .block kind body :: rest → becomesDirective (.block kind body) = false →
    Quiet body (kind.closer ++ rest.flatMap Piece.source)

variable {piece : Piece} {pieces : List Piece} {last : Text}

/-- No directive begins inside pieces if none begins inside the first or the later ones. -/
lemma noneInside_cons :
    NoneInside (piece :: pieces) ↔
      (∀ kind body, piece = .block kind body → becomesDirective piece = false →
        Quiet body (kind.closer ++ pieces.flatMap Piece.source)) ∧ NoneInside pieces := by
  constructor
  · intro h
    refine ⟨?_, fun front kind body rest heq => h (piece :: front) kind body rest (by rw [heq]; rfl)⟩
    rintro kind body rfl
    exact h [] kind body pieces rfl
  · rintro ⟨hpiece, hlater⟩ front kind body rest heq
    cases front with
    | nil =>
      obtain ⟨rfl, rfl⟩ := List.cons.inj heq
      exact hpiece kind body rfl
    | cons first front => exact hlater front kind body rest (List.cons.inj heq).2

lemma noneInside_ofText_append (front : Text) (pieces : List Piece) :
    NoneInside (Piece.ofText front ++ pieces) ↔ NoneInside pieces := by
  rw [Piece.ofText]
  split
  · rfl
  · exact noneInside_cons.trans (and_iff_right fun _ _ heq => by simp at heq)

lemma spansFrom_ofText_append (offset : Nat) (front : Text) (pieces : List Piece) :
    spansFrom offset (directiveRow (Piece.ofText front ++ pieces)) =
      spansFrom (offset + Text.byteLength front) (directiveRow pieces) := by
  rw [Piece.ofText]
  split
  · rename_i hempty
    rw [List.isEmpty_iff.1 hempty]
    rfl
  · rfl

/-- A directive is one of the spans. -/
lemma spansFrom_directive (h : becomesDirective piece = true) (offset : Nat) :
    spansFrom offset (directiveRow (piece :: pieces)) =
      (offset, offset + Text.byteLength piece.source) ::
        spansFrom (offset + Text.byteLength piece.source) (directiveRow pieces) := by
  rw [directiveRow, List.map_cons, h]
  rfl

/-- What is no directive is passed over. -/
lemma spansFrom_other (h : becomesDirective piece = false) (offset : Nat) :
    spansFrom offset (directiveRow (piece :: pieces)) =
      spansFrom (offset + Text.byteLength piece.source) (directiveRow pieces) := by
  rw [directiveRow, List.map_cons, h]
  rfl

/-- No span starts before the place where the scan begins. -/
lemma le_of_mem_spansFrom {row : List (Bool × Text)} {span : Nat × Nat} (h : span ∈ spansFrom offset row) :
    offset ≤ span.1 := by
  induction row generalizing offset with
  | nil => exact absurd h List.not_mem_nil
  | cons stretch row ih =>
    obtain ⟨marked, s⟩ := stretch
    cases marked with
    | false => exact Nat.le_of_add_right_le (ih h)
    | true =>
      rcases List.mem_cons.1 h with rfl | h
      · exact Nat.le_refl offset
      · exact Nat.le_of_add_right_le (ih h)

/-- A block that becomes a directive seems to be one from its opener on, and is a comment. -/
lemma seems_of_becomesDirective {kind : BlockKind} (h : becomesDirective (.block kind body) = true)
    (hcloses : Closes kind (body ++ kind.closer ++ rest) body rest) :
    SeemsDirective ((Piece.block kind body).source ++ rest) body rest ∧ kind = .comment := by
  cases kind with
  | expression => simp [becomesDirective, Token.ofPiece?] at h
  | note => simp [becomesDirective, Token.ofPiece?] at h
  | comment =>
    refine ⟨⟨rfl, hcloses, ?_⟩, rfl⟩
    by_contra hnot
    simp [becomesDirective, Token.ofPiece?, Token.isDirective_trim, hnot] at h

/-- Exactly the pieces that become directives are seen, if and only if none seems to begin inside of others. -/
lemma Seen.eq_iff_of_scan (hscan : Scan t pieces last) (hplain : Plain last) (h : Seen offset t spans) :
    spans = spansFrom offset (directiveRow (pieces ++ Piece.ofText last)) ↔
      NoneInside (pieces ++ Piece.ofText last) := by
  -- by induction on the scan: the text in front of a block is quiet, so the block decides
  induction hscan generalizing offset spans with
  | here t =>
    have hquiet : Quiet t [] := quiet_of_not_prefix fun a b heq _ => not_prefix_of_plain hplain heq
    have hnone : spans = [] := by
      rw [← List.append_nil t] at h
      cases h.of_quiet hquiet with
      | nil => rfl
      | found here => exact absurd (List.prefix_nil.1 here.opener_prefix) (by decide)
    have hrow := spansFrom_ofText_append offset t []
    have hinside := noneInside_ofText_append t []
    rw [List.append_nil] at hrow hinside
    rw [List.nil_append, hnone, hrow, hinside]
    exact iff_of_true rfl fun front _ _ _ heq => by simp at heq
  | @block t front behind body rest last kind pieces hopens hcloses later ih =>
    have hrest : rest = (pieces ++ Piece.ofText last).flatMap Piece.source := by
      rw [List.flatMap_append, Piece.flatten_ofText, ← later.eq_append]
    have hclosed := hcloses
    rw [hcloses.eq] at hclosed
    have hblock : kind.opener ++ behind = (Piece.block kind body).source ++ rest := by
      rw [hcloses.eq, Piece.source]
      simp
    have hquiet : Quiet front ((Piece.block kind body).source ++ rest) :=
      quiet_of_not_prefix fun a b heq hne => hblock ▸ not_prefix_of_opens hopens heq hne
    have hbehind : Seen (offset + Text.byteLength front) ((Piece.block kind body).source ++ rest) spans := by
      rw [hopens.eq, List.append_assoc, hblock] at h
      exact h.of_quiet hquiet
    rw [List.append_assoc, List.cons_append, spansFrom_ofText_append, noneInside_ofText_append, noneInside_cons,
      ← hrest]
    -- a directive is seen just where it stands; any other block has to be quiet itself
    by_cases hdirective : becomesDirective (.block kind body) = true
    · obtain ⟨hseems, rfl⟩ := seems_of_becomesDirective hdirective hclosed
      obtain ⟨seen, rfl, hlater⟩ := hbehind.of_seems hseems
      rw [spansFrom_directive hdirective, List.cons.injEq, ih hplain hlater]
      exact and_congr (iff_of_true rfl fun _ _ _ hnot => by simp [hdirective] at hnot) Iff.rfl
    · have hnot := Bool.eq_false_iff.2 hdirective
      have hblock : (∀ kind' body', Piece.block kind body = .block kind' body' →
          becomesDirective (.block kind body) = false → Quiet body' (kind'.closer ++ rest)) ↔
            Quiet (Piece.block kind body).source rest := by
        rw [quiet_block_iff hclosed hnot]
        refine ⟨fun h => h kind body rfl hnot, ?_⟩
        rintro h _ _ ⟨⟩ -
        exact h
      rw [spansFrom_other hnot, hblock]
      by_cases hinside : Quiet (Piece.block kind body).source rest
      · rw [ih hplain (hbehind.of_quiet hinside), and_iff_right hinside]
      · -- what is seen first begins in the block, and the spans of the scan begin behind it
        obtain ⟨span, seen, rfl, hspan⟩ := hbehind.exists_of_not_quiet hinside
        refine iff_of_false (fun heq => ?_) fun hboth => hinside hboth.1
        have := le_of_mem_spansFrom (heq ▸ List.mem_cons_self : span ∈ _)
        omega

/-! ## Every directive is blanked -/

/-- A directive that the scan may find somewhere is within what is seen. -/
lemma Seen.exists_span_of_seems (h : Seen offset t spans) {front s : Text} (ht : t = front ++ s)
    (hseems : SeemsDirective s body rest) :
    ∃ span ∈ spans, span.1 ≤ offset + Text.byteLength front ∧
      offset + Text.byteLength front + Text.byteLength (Piece.block .comment body).source ≤ span.2 := by
  -- by induction on what is seen: the span that covers the directive is the one seen when its start is passed
  induction h generalizing front with
  | nil =>
    obtain ⟨-, rfl⟩ := List.append_eq_nil_iff.1 ht.symm
    exact absurd (List.prefix_nil.1 hseems.opener_prefix) (by decide)
  | @skip offset c t spans hnone _ ih =>
    cases front with
    | nil =>
      rw [List.nil_append] at ht
      exact absurd (ht ▸ hseems) (hnone _ _)
    | cons d front =>
      obtain ⟨rfl, hlater⟩ := List.cons.inj ht
      rw [Text.byteLength_cons, ← Nat.add_assoc]
      exact ih hlater
  | @found offset t body' rest' spans here _ ih =>
    by_cases hlonger : front.length < (Piece.block .comment body').source.length
    · subst ht
      obtain ⟨more, hmore⟩ := here.covers hseems hlonger
      refine ⟨_, List.mem_cons_self, Nat.le_add_right _ _, ?_⟩
      rw [← hmore]
      simp only [Text.byteLength_append]
      omega
    · -- the next one is looked for in front of the place where the directive begins
      have hsource := here.eq.symm.trans ht
      obtain ⟨front', rfl⟩ : (Piece.block .comment body').source <+: front :=
        List.prefix_of_prefix_length_le ⟨rest', hsource⟩ (List.prefix_append front s) (Nat.le_of_not_lt hlonger)
      rw [List.append_assoc] at hsource
      obtain ⟨span, hspan, hfrom, hto⟩ := ih (List.append_cancel_left hsource)
      rw [Text.byteLength_append, ← Nat.add_assoc]
      exact ⟨span, List.mem_cons_of_mem _ hspan, hfrom, hto⟩

/-- Wherever the scan of a template goes on, each of its directives is within what is seen of the whole. -/
lemma Seen.exists_span_of_scan (hscan : Scan t pieces last) {front : Text} (h : Seen offset (front ++ t) spans) :
    ∀ span ∈ spansFrom (offset + Text.byteLength front) (directiveRow (pieces ++ Piece.ofText last)),
      ∃ span' ∈ spans, span'.1 ≤ span.1 ∧ span.2 ≤ span'.2 := by
  -- by induction on the scan, with what was scanned already as the front
  induction hscan generalizing front with
  | here t =>
    have hrow := spansFrom_ofText_append (offset + Text.byteLength front) t []
    rw [List.append_nil] at hrow
    rw [List.nil_append, hrow]
    exact fun span hspan => absurd hspan List.not_mem_nil
  | @block t text behind body rest last kind pieces hopens hcloses later ih =>
    have hclosed := hcloses
    rw [hcloses.eq] at hclosed
    have ht : front ++ t = front ++ text ++ ((Piece.block kind body).source ++ rest) := by
      rw [hopens.eq, hcloses.eq, Piece.source]
      simp
    have hlater : Seen offset (front ++ text ++ (Piece.block kind body).source ++ rest) spans := by
      rw [List.append_assoc, ← ht]
      exact h
    have hrest := ih hlater
    rw [Text.byteLength_append, Text.byteLength_append, ← Nat.add_assoc, ← Nat.add_assoc] at hrest
    rw [List.append_assoc, List.cons_append, spansFrom_ofText_append]
    by_cases hdirective : becomesDirective (.block kind body) = true
    · obtain ⟨hseems, rfl⟩ := seems_of_becomesDirective hdirective hclosed
      obtain ⟨span', hspan', hfrom, hto⟩ := h.exists_span_of_seems ht hseems
      rw [Text.byteLength_append, ← Nat.add_assoc] at hfrom hto
      rw [spansFrom_directive hdirective]
      exact List.forall_mem_cons.2 ⟨⟨span', hspan', hfrom, hto⟩, hrest⟩
    · rw [spansFrom_other (Bool.eq_false_iff.2 hdirective)]
      exact hrest

/-! ## Two views of a template -/

/-- In a template that can be scanned to its end, what is blanked is exactly the pieces that become directives, if and
only if no directive seems to begin inside of an expression, a note or a comment that is none. Every piece that becomes
a directive is within a span that is blanked. -/
theorem blankedSpans_eq_iff {t : Text} {pieces : List Piece} (h : Piece.ofSource 1 t = .ok pieces) :
    (blankedSpans t = directiveSpans pieces ↔ NoneInside pieces) ∧
      ∀ span ∈ directiveSpans pieces, ∃ span' ∈ blankedSpans t, span'.1 ≤ span.1 ∧ span.2 ≤ span'.2 := by
  obtain ⟨scanned, last, hscan, hplain, rfl⟩ := Piece.ofSource_eq_ok_iff.1 h
  have hseen : Seen 0 ([] ++ t) (blankedSpans t) := seen_blankedSpans t
  exact ⟨Seen.eq_iff_of_scan hscan hplain hseen, Seen.exists_span_of_scan hscan hseen⟩

/-- Inside of blocks without the sign that a comment begins with nothing seems to begin. -/
lemma noneInside_of_not_mem (h : ∀ kind body, .block kind body ∈ pieces → '<' ∉ body) : NoneInside pieces := by
  rintro front kind body rest rfl - a b rfl hne body' rest' hseems
  obtain ⟨more, hmore⟩ := hseems.opener_prefix
  obtain ⟨c, b, rfl⟩ := List.exists_cons_of_ne_nil hne
  obtain rfl : '<' = c := (List.cons.inj hmore).1
  have hmem : .block kind (a ++ '<' :: b) ∈ front ++ .block kind (a ++ '<' :: b) :: rest :=
    List.mem_append_right _ List.mem_cons_self
  exact h _ _ hmem (List.mem_append_right _ List.mem_cons_self)

/-- A template with a note, and a text in the branch of a condition. -/
def notedBranch : Text := "a\x7b# b #\x7d<!-- IF c --><i>d</i><!--END IF-->"

/-- The two directives of that template are blanked, and nothing else. -/
theorem blankedSpans_notedBranch :
    ∃ pieces, Piece.ofSource 1 notedBranch = .ok pieces ∧ blankedSpans notedBranch = directiveSpans pieces ∧
      directiveSpans pieces = [(8, 21), (29, 42)] ∧
      ∃ span' ∈ blankedSpans notedBranch, span'.1 ≤ 29 ∧ 42 ≤ span'.2 := by
  have hpieces : Piece.ofSource 1 notedBranch =
      .ok [.text "a", .block .note " b ", .block .comment " IF c ", .text "<i>d</i>", .block .comment "END IF"] := by
    decide +kernel
  obtain ⟨hagree, hcovers⟩ := blankedSpans_eq_iff hpieces
  have hspans : directiveSpans [.text "a", .block .note " b ", .block .comment " IF c ", .text "<i>d</i>",
      .block .comment "END IF"] = [(8, 21), (29, 42)] := by decide +kernel
  refine ⟨_, hpieces, hagree.2 (noneInside_of_not_mem fun kind body hbody => ?_), hspans, ?_⟩
  · simp only [List.mem_cons, reduceCtorEq, Piece.block.injEq, List.not_mem_nil, or_false, false_or] at hbody
    rcases hbody with ⟨-, rfl⟩ | ⟨-, rfl⟩ | ⟨-, rfl⟩ <;> decide
  · exact hcovers (29, 42) (by rw [hspans]; exact List.mem_cons_of_mem _ List.mem_cons_self)

/-- A directive that seems to begin in a note is blanked up to the end of a comment behind the note, and with it a text
that is put out. Nothing of this template is a directive. -/
theorem exists_hidden_text :
    Piece.ofSource 1 "\x7b# <!--IF #\x7d<script>-->" = .ok [.block .note " <!--IF ", .text "<script>-->"] ∧
      Token.ofSource "\x7b# <!--IF #\x7d<script>-->" = .ok [.text "<script>-->"] ∧
      directiveSpans [.block .note " <!--IF ", .text "<script>-->"] = [] ∧
      blankedSpans "\x7b# <!--IF #\x7d<script>-->" = [(3, 23)] := by
  have hpieces : Piece.ofSource 1 "\x7b# <!--IF #\x7d<script>-->" =
      .ok [.block .note " <!--IF ", .text "<script>-->"] := by decide +kernel
  refine ⟨hpieces, ?_, by decide +kernel, by decide +kernel⟩
  rw [Token.ofSource_of_pieces hpieces]
  rfl

end Stencil.Inspection
