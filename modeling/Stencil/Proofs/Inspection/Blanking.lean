import Stencil.Inspection.Validator
import Stencil.Proofs.Pattern.Occurrence
import Stencil.Proofs.Pattern.Search
import Stencil.Proofs.Template.Scanning

/-!
# Directives are blanked block by block

Scripts are looked for in the text of a template with its directives blanked, and directives are found there by a
pattern that knows nothing of other blocks. Still the plain text between the blocks of a template is left as it is, as
long as no note leaves a comment open: a match of the pattern goes on to the first end of a comment behind its
beginning (`exists_of_matchAt?_directive`), and so a match that begins in a block ends in it (`EndsInside`).

Main statement: blanking turns a block into some text that continues no word, and leaves the text in front of it
(`exists_blankFrom_block`).
-/

namespace Stencil.Inspection

open Pattern Template

/-! ## What a directive is taken for -/

/-- What may stand behind a keyword. -/
def arguments : Pattern := optionally (.char Text.isBlank ++ anything)

/-- Behind its keyword a directive goes on to the first end of a comment, with a blank if with anything. -/
lemma cutsFirst_of_search_arguments {q p' : Place} {s : Text}
    (h : (arguments ++ literal "-->").search (fun q _ => some q) q s = some p') :
    ∃ more rest, Text.CutsFirst "-->" s more rest ∧ Text.Parted more ∧ p' = q.after (more ++ "-->") := by
  have h : (((Pattern.char Text.isBlank).search
      (fun q s => (anything ++ literal "-->").search (fun q _ => some q) q s) q s).orElse
        fun _ => (literal "-->").search (fun q _ => some q) q s) = some p' := h
  -- arguments begin with a blank or are missing, and only in the second case the end follows at once
  cases hblank : (Pattern.char Text.isBlank).search
      (fun q s => (anything ++ literal "-->").search (fun q _ => some q) q s) q s with
  | some p'' =>
    rw [hblank, Option.orElse_some, Option.some.injEq] at h
    subst h
    rw [search_eq_findSome?] at hblank
    obtain ⟨⟨q', s'⟩, hmem, hq'⟩ := List.exists_of_findSome?_eq_some hblank
    obtain ⟨c, hc, rfl, rfl⟩ := mem_ends_char.1 hmem
    dsimp only at hq'
    rw [search_anything, Option.map_eq_some_iff] at hq'
    obtain ⟨⟨front, rest⟩, hcut, rfl⟩ := hq'
    have hdash : '-' ∉ [c] := by
      rw [List.mem_singleton]
      rintro rfl
      exact absurd hc (by decide)
    have hparted : Text.Parted (c :: front) := fun d hd => by
      rw [← Option.some.inj hd]
      exact hc
    exact ⟨c :: front, rest, (Text.cutAt?_eq_some_iff.1 hcut).prepend hdash, hparted, rfl⟩
  | none =>
    rw [hblank, Option.orElse_none, search_literal, Option.map_eq_some_iff] at h
    obtain ⟨rest, hrest, rfl⟩ := h
    exact ⟨[], rest, ⟨Text.behind?_eq_some_iff.1 hrest, fun a b _ => Nat.zero_le _⟩, fun _ hc => by simp at hc, rfl⟩

/-- A match of a directive is a comment up to its first end, in which the first thing behind blanks is a keyword. -/
theorem exists_of_matchAt?_directive {position : Nat} {previous : Option Char} {t : Text} {m : Match}
    (h : directiveComment.matchAt? position previous t = some m) :
    ∃ blank keyword more rest behind, t = "<!--" ++ behind ∧ Text.Blanks blank ∧ keyword ∈ Token.keywords ∧
      Text.Parted more ∧ Text.CutsFirst "-->" behind (blank ++ keyword ++ more) rest ∧
      m.text = "<!--" ++ (blank ++ keyword ++ more) ++ "-->" := by
  unfold matchAt? at h
  split at h
  · simp at h
  rename_i p' hsearch
  split at h
  · simp at h
  -- the search is that of the front, with the arguments as what comes behind
  have hfront : (literal "<!--" ++ blanks ++ oneOfLiterals Token.keywords).search
      (fun q s => (arguments ++ literal "-->").search (fun q _ => some q) q s) ⟨position, previous, []⟩ t = some p' :=
    hsearch
  rw [search_eq_findSome?] at hfront
  obtain ⟨⟨q, s⟩, hmem, hq⟩ := List.exists_of_findSome?_eq_some hfront
  obtain ⟨more, rest, hcut, hparted, rfl⟩ := cutsFirst_of_search_arguments hq
  obtain ⟨p2, t2, hmem, hkeyword⟩ := mem_ends_sequence.1 hmem
  obtain ⟨p1, t1, hopen, hblanks⟩ := mem_ends_sequence.1 hmem
  obtain ⟨rfl, rfl⟩ := mem_ends_literal.1 hopen
  obtain ⟨blank, hblank, rfl, rfl⟩ := mem_ends_many.1 hblanks
  obtain ⟨pattern, hpattern, hkeyword⟩ := mem_ends_oneOfThese.1 hkeyword
  obtain ⟨keyword, hmember, rfl⟩ := List.mem_map.1 hpattern
  obtain ⟨rfl, rfl⟩ := mem_ends_literal.1 hkeyword
  -- no dash stands in front of the arguments, so the cut is the first one in the whole comment
  have hdash : '-' ∉ blank ++ keyword := by
    have hkeywords : ∀ keyword ∈ Token.keywords, '-' ∉ keyword := by decide
    rw [List.mem_append]
    rintro (hmem | hmem)
    · exact absurd (hblank _ hmem) (by decide)
    · exact hkeywords keyword hmember hmem
  refine ⟨blank, keyword, more, rest, _, rfl, hblank, hmember, hparted, ?_, ?_⟩
  · rw [← List.append_assoc]
    exact hcut.prepend hdash
  · rw [← Option.some.inj h]
    have htext : "<!--".toList ++ (blank ++ (keyword ++ s)) =
        "<!--".toList ++ (blank ++ keyword ++ more) ++ "-->".toList ++ rest := by
      rw [hcut.eq]
      simp
    show List.take _ _ = _
    rw [htext]
    refine List.take_left' ?_
    simp only [Place.position_after, List.length_append]
    omega

/-! ## Matches that stay inside -/

/-- Every directive that begins in a segment of a text ends in it. -/
def EndsInside (segment behind : Text) : Prop :=
  ∀ a b, segment = a ++ b → b ≠ [] → ∀ position previous m,
    directiveComment.matchAt? position previous (b ++ behind) = some m → m.text.length ≤ b.length

/-- Every comment that begins in a text ends in it. -/
def ClosesComments (body : Text) : Prop := ∀ a b, body = a ++ "<!--" ++ b → "-->".toList <:+: b

lemma exists_of_append_eq_append_cons {c : Char} {s t a b : Text} (hc : c ∉ t) (h : s ++ t = a ++ c :: b) :
    ∃ u, s = a ++ c :: u ∧ b = u ++ t := by
  rw [List.append_eq_append_iff] at h
  rcases h with ⟨u, -, ht⟩ | ⟨u, rfl, hb⟩
  · exact absurd (ht ▸ List.mem_append_right _ List.mem_cons_self) hc
  · cases u with
    | nil =>
      rw [List.nil_append] at hb
      exact absurd (hb ▸ List.mem_cons_self) hc
    | cons d u =>
      obtain ⟨rfl, rfl⟩ := List.cons.inj hb
      exact ⟨u, rfl, rfl⟩

/-- A segment of a block that begins like a directive is the whole block, or reaches from inside its body to its end. -/
lemma suffix_of_source {kind : BlockKind} {body a b : Text} (h : (Piece.block kind body).source = a ++ '<' :: b) :
    (kind = .comment ∧ a = []) ∨ ∃ v u, body = v ++ '<' :: u ∧ b = u ++ kind.closer := by
  have hcloser : '<' ∉ kind.closer := by cases kind <;> decide
  rw [Piece.source, List.append_assoc, List.append_eq_append_iff] at h
  rcases h with ⟨v, -, hbody⟩ | ⟨v, hopener, hb⟩
  · obtain ⟨u, hu⟩ := exists_of_append_eq_append_cons hcloser hbody
    exact .inr ⟨v, u, hu⟩
  · cases v with
    | nil =>
      obtain ⟨u, hu⟩ := exists_of_append_eq_append_cons (a := []) hcloser hb.symm
      exact .inr ⟨[], u, hu⟩
    | cons c v =>
      -- of the openers only that of a comment has a `<`, in front
      left
      obtain ⟨rfl, -⟩ := List.cons.inj hb
      have hmem : '<' ∈ kind.opener := hopener ▸ List.mem_append_right _ List.mem_cons_self
      cases kind with
      | expression => exact absurd hmem (by decide)
      | note => exact absurd hmem (by decide)
      | comment =>
        refine ⟨rfl, ?_⟩
        cases a with
        | nil => rfl
        | cons d a =>
          have htail : '<' ∉ (BlockKind.opener .comment).tail := by decide
          rw [hopener, List.cons_append, List.tail_cons] at htail
          exact absurd (List.mem_append_right _ List.mem_cons_self) htail

/-- A text that begins a comment in front of the end of a block has the whole of `<!--` in front of it, or the comment
goes on with a character that no directive goes on with. -/
lemma exists_of_append_closer {kind : BlockKind} {u rest behind : Text} (hu : u ≠ [])
    (h : u ++ kind.closer ++ rest = "<!--" ++ behind) :
    (∃ u', u = "<!--" ++ u' ∧ behind = u' ++ kind.closer ++ rest) ∨
      kind = .comment ∧ (behind.head? = some '-' ∨ behind.head? = some '>') := by
  have hopener : "<!--".toList = ['<', '!', '-', '-'] := rfl
  rw [List.append_assoc, List.append_eq_append_iff, hopener] at h
  rcases h with ⟨v, hv, hbehind⟩ | ⟨u', rfl, hbehind⟩
  · by_cases hnil : v = []
    · subst hnil
      exact .inl ⟨[], by rw [← List.append_nil u, ← hv]; rfl, hbehind.symm⟩
    -- the opener is cut, and the closer goes on with the rest of it
    right
    match u, hu, hv with
    | [c], _, hv =>
      obtain ⟨-, rfl⟩ := List.cons.inj hv
      cases kind <;> simp [BlockKind.closer] at hbehind
    | [c, d], _, hv =>
      simp only [List.cons_append, List.nil_append, List.cons.injEq] at hv
      obtain ⟨-, -, rfl⟩ := hv
      cases kind <;> simp [BlockKind.closer] at hbehind ⊢
      simp [← hbehind]
    | [c, d, e], _, hv =>
      simp only [List.cons_append, List.nil_append, List.cons.injEq] at hv
      obtain ⟨-, -, -, rfl⟩ := hv
      cases kind <;> simp [BlockKind.closer] at hbehind ⊢
      simp [← hbehind]
    | c :: d :: e :: f :: u, _, hv =>
      simp only [List.cons_append, List.cons.injEq] at hv
      exact absurd (List.append_eq_nil_iff.1 hv.2.2.2.2.symm).2 hnil
  · exact .inl ⟨u', rfl, by rw [hbehind, List.append_assoc]⟩

/-- A directive goes on with a blank or a letter, and not with what a comment may end with. -/
lemma exists_cons_directive {blank keyword : Text} (hblank : Text.Blanks blank) (hkeyword : keyword ∈ Token.keywords)
    (more : Text) : ∃ c inside, blank ++ keyword ++ more = c :: inside ∧ c ≠ '-' ∧ c ≠ '>' := by
  cases blank with
  | nil =>
    have hall : ∀ keyword ∈ Token.keywords, keyword ≠ [] ∧ '-' ∉ keyword ∧ '>' ∉ keyword := by decide
    obtain ⟨hne, hdash, hclose⟩ := hall keyword hkeyword
    obtain ⟨c, keyword, rfl⟩ := List.exists_cons_of_ne_nil hne
    exact ⟨c, keyword ++ more, rfl, fun heq => hdash (heq ▸ List.mem_cons_self),
      fun heq => hclose (heq ▸ List.mem_cons_self)⟩
  | cons c blank =>
    have hc := hblank c List.mem_cons_self
    refine ⟨c, blank ++ keyword ++ more, rfl, ?_, ?_⟩
    · rintro rfl
      exact absurd hc (by decide)
    · rintro rfl
      exact absurd hc (by decide)

/-- The directives that begin in a block end in it. -/
lemma endsInside_block {kind : BlockKind} {behind body rest : Text} (hcloses : Closes kind behind body rest)
    (hsealed : kind ≠ .comment → ClosesComments body) : EndsInside (Piece.block kind body).source rest := by
  intro a b hsource hne position previous m hm
  obtain ⟨blank, keyword, more, rest', behind', heq, hblank, hkeyword, -, hcut, htext⟩ :=
    exists_of_matchAt?_directive hm
  obtain ⟨d, more', hinside, hdash, hclose⟩ := exists_cons_directive hblank hkeyword more
  generalize blank ++ keyword ++ more = inside at hcut htext hinside
  have hlength : m.text.length = 4 + inside.length + 3 := by
    rw [htext, List.length_append, List.length_append]
    rfl
  obtain ⟨c, b, rfl⟩ := List.exists_cons_of_ne_nil hne
  obtain rfl : c = '<' := (List.cons.inj heq).1
  rcases suffix_of_source hsource with ⟨rfl, rfl⟩ | ⟨v, u, rfl, rfl⟩
  · -- the match begins with the block
    rw [List.nil_append] at hsource
    rw [← hsource, Piece.source, List.append_assoc, List.append_assoc] at heq
    obtain rfl : behind = behind' := by
      rw [hcloses.eq, List.append_assoc]
      exact List.append_cancel_left heq
    obtain ⟨rfl, -⟩ := hcut.unique hcloses
    rw [hlength, ← hsource, Piece.source, List.length_append, List.length_append]
    exact Nat.le_refl _
  · -- the match begins inside of the block, and its end is not behind the end of the body or of the block
    have heq : '<' :: u ++ kind.closer ++ rest = "<!--" ++ behind' := heq
    rcases exists_of_append_closer (List.cons_ne_nil _ _) heq with ⟨u', hu, rfl⟩ | ⟨rfl, hother⟩
    · have hshort : inside.length + 3 ≤ u'.length + kind.closer.length := by
        by_cases hkind : kind = .comment
        · subst hkind
          exact Nat.add_le_add_right (hcut.first u' rest rfl) 3
        · obtain ⟨p, q, rfl⟩ := hsealed hkind v u' (by rw [hu, List.append_assoc])
          have := hcut.first p (q ++ kind.closer ++ rest) (by simp)
          simp only [List.length_append, show "-->".toList.length = 3 from rfl]
          omega
      have hlengthu := congrArg List.length hu
      simp only [List.length_cons, List.length_append, show "<!--".toList.length = 4 from rfl] at hlengthu ⊢
      omega
    · rw [hcut.eq, hinside] at hother
      rcases hother with hother | hother
      · exact absurd (Option.some.inj hother) hdash
      · exact absurd (Option.some.inj hother) hclose

/-! ## Blanking -/

/-- A text from a place on with its directives blanked. -/
def blankFrom (position : Nat) (previous : Option Char) (t : Text) : Text :=
  directiveComment.replaceFrom (fun m => List.replicate (Text.byteLength m.text) ' ') position previous t

lemma blankDirectives_eq (t : Text) : blankDirectives t = blankFrom 0 none t := replaceAll_eq _ _ t

/-- A text in which no directive begins is left as it is. -/
lemma exists_blankFrom_eq_append {segment behind : Text}
    (h : ∀ a b, segment = a ++ b → b ≠ [] → ¬ "<!--".toList <+: b ++ behind) (position : Nat)
    (previous : Option Char) :
    ∃ position' previous', blankFrom position previous (segment ++ behind) =
      segment ++ blankFrom position' previous' behind := by
  induction segment generalizing position previous with
  | nil => exact ⟨position, previous, rfl⟩
  | cons c segment ih =>
    have hnone : directiveComment.matchAt? position previous (c :: (segment ++ behind)) = none := by
      cases hm : directiveComment.matchAt? position previous (c :: (segment ++ behind)) with
      | none => rfl
      | some m =>
        obtain ⟨-, -, -, -, behind', heq, -⟩ := exists_of_matchAt?_directive hm
        exact absurd ⟨behind', heq.symm⟩ (h [] (c :: segment) rfl (List.cons_ne_nil _ _))
    obtain ⟨position', previous', hlater⟩ :=
      ih (fun a b heq => h (c :: a) b (by rw [heq]; rfl)) (position + 1) (some c)
    refine ⟨position', previous', ?_⟩
    rw [List.cons_append, blankFrom, replaceFrom_cons hnone, List.cons_append]
    exact congrArg (c :: ·) hlater

/-- The same characters at both ends, or spaces instead. -/
def Bordered (segment written : Text) : Prop :=
  (written.head? = segment.head? ∨ written.head? = some ' ') ∧
    (written.getLast? = segment.getLast? ∨ written.getLast? = some ' ')

/-- A character in front leaves a text bordered. -/
lemma Bordered.cons (c : Char) {segment written : Text} (h : Bordered segment written) :
    Bordered (c :: segment) (c :: written) := by
  refine ⟨.inl rfl, ?_⟩
  rw [List.getLast?_cons, List.getLast?_cons]
  rcases h.2 with heq | heq
  · exact .inl (by rw [heq])
  · exact .inr (by rw [heq]; rfl)

/-- Blanks in place of a piece leave a text bordered. -/
lemma Bordered.append_spaces {n : Nat} (hn : 0 < n) (s : Text) {segment written : Text}
    (h : Bordered segment written) :
    Bordered (s ++ segment) (List.replicate n ' ' ++ written) := by
  obtain ⟨k, rfl⟩ := Nat.exists_eq_succ_of_ne_zero (Nat.pos_iff_ne_zero.1 hn)
  refine ⟨.inr rfl, ?_⟩
  rw [List.getLast?_append, List.getLast?_append, List.getLast?_replicate, if_neg (Nat.succ_ne_zero k)]
  rcases h.2 with heq | heq
  · rw [heq]
    cases segment.getLast? with
    | none => exact .inr rfl
    | some c => exact .inl rfl
  · exact .inr (by rw [heq]; rfl)

/-- A segment in which directives that begin there end is written apart from what is behind it, and has the ends that
it had, or spaces. -/
lemma exists_blankFrom_eq_written {segment behind : Text} (h : EndsInside segment behind) (position : Nat)
    (previous : Option Char) :
    ∃ written position' previous', blankFrom position previous (segment ++ behind) =
      written ++ blankFrom position' previous' behind ∧ Bordered segment written := by
  generalize hn : segment.length = n
  -- by strong induction on the length, since a match takes several characters at once
  induction n using Nat.strong_induction_on generalizing segment position previous with
  | _ n ih =>
    cases segment with
    | nil => exact ⟨[], position, previous, rfl, .inl rfl, .inl rfl⟩
    | cons c segment =>
      cases hm : directiveComment.matchAt? position previous (c :: segment ++ behind) with
      | none =>
        obtain ⟨written, position', previous', hlater, hbordered⟩ := ih segment.length (by rw [← hn]; simp)
          (fun a b heq => h (c :: a) b (by rw [heq]; rfl)) (position + 1) (some c) rfl
        refine ⟨c :: written, position', previous', ?_, hbordered.cons c⟩
        rw [List.cons_append] at hm ⊢
        rw [blankFrom, replaceFrom_cons hm, List.cons_append]
        exact congrArg (c :: ·) hlater
      | some m =>
        -- a match that begins inside of the segment ends inside of it, too
        have hshort := h [] (c :: segment) rfl (List.cons_ne_nil _ _) position previous m hm
        have hne := text_ne_nil_of_matchAt? (List.cons_ne_nil _ _) hm
        obtain ⟨htext, -⟩ := text_of_matchAt? hm
        obtain ⟨later, heq⟩ : m.text <+: c :: segment := by
          rw [htext, List.take_append_of_le_length hshort]
          exact List.take_prefix _ _
        have hshorter : later.length < n := by
          have := congrArg List.length heq
          have := List.length_pos_iff.2 hne
          rw [List.length_append] at *
          omega
        obtain ⟨written, position', previous', hlater, hbordered⟩ := ih later.length hshorter
          (fun a b hb => h (m.text ++ a) b (by rw [← heq, hb, List.append_assoc]))
          (position + m.text.length) m.text.getLast? rfl
        have hbytes : 0 < Text.byteLength m.text :=
          Nat.lt_of_lt_of_le (List.length_pos_iff.2 hne) (Text.length_le_byteLength m.text)
        rw [← heq] at hm ⊢
        rw [List.append_assoc] at hm ⊢
        refine ⟨List.replicate (Text.byteLength m.text) ' ' ++ written, position', previous', ?_,
          hbordered.append_spaces hbytes m.text⟩
        rw [blankFrom, replaceFrom_append hm rfl hne, List.append_assoc]
        exact congrArg (List.replicate (Text.byteLength m.text) ' ' ++ ·) hlater

/-! ## Blocks -/

/-- A text that no word goes on from, on either side. -/
structure Apart (t : Text) : Prop where
  head : t.head?.any Text.isWordChar = false
  last : t.getLast?.any Text.isWordChar = false
  ne_nil : t ≠ []

/-- What is blanked within a block keeps it apart. -/
lemma apart_of_bordered {segment written : Text} (hsegment : Apart segment) (h : Bordered segment written) :
    Apart written := by
  have hspace : (some ' ').any Text.isWordChar = false := by decide
  refine ⟨?_, ?_, ?_⟩
  · rcases h.1 with heq | heq
    · rw [heq]
      exact hsegment.head
    · rw [heq]
      exact hspace
  · rcases h.2 with heq | heq
    · rw [heq]
      exact hsegment.last
    · rw [heq]
      exact hspace
  · rintro rfl
    rcases h.1 with heq | heq
    · exact hsegment.ne_nil (List.head?_eq_none_iff.1 heq.symm)
    · simp at heq

lemma apart_source (kind : BlockKind) (body : Text) : Apart (Piece.block kind body).source := by
  rw [Piece.source]
  cases kind with
  | expression => exact ⟨by rfl, by rw [List.getLast?_append]; rfl, by simp [BlockKind.opener]⟩
  | note => exact ⟨by rfl, by rw [List.getLast?_append]; rfl, by simp [BlockKind.opener]⟩
  | comment => exact ⟨by rfl, by rw [List.getLast?_append]; rfl, by simp [BlockKind.closer]⟩

/-- No comment begins in the text in front of a block: its opener would have less text in front of it. -/
lemma not_prefix_of_opens {t front behind : Text} {kind : BlockKind} (h : Opens t front kind behind) {a b : Text}
    (hfront : front = a ++ b) (hne : b ≠ []) : ¬ "<!--".toList <+: b ++ (kind.opener ++ behind) := by
  rintro ⟨more, hmore⟩
  have hlength := h.first a .comment more (by
    rw [h.eq, hfront, List.append_assoc, List.append_assoc, ← hmore, ← List.append_assoc]
    rfl)
  have := List.length_pos_iff.2 hne
  rw [hfront, List.length_append] at hlength
  omega

/-- No comment begins in a text without blocks. -/
lemma not_prefix_of_plain {t : Text} (h : Plain t) {a b : Text} (ht : t = a ++ b) :
    ¬ "<!--".toList <+: b ++ [] := by
  rintro ⟨more, hmore⟩
  rw [List.append_nil] at hmore
  exact h .comment ⟨a, more, by rw [ht, ← hmore, ← List.append_assoc]; rfl⟩

/-- Blanking leaves the text in front of a block and turns the block into some text apart. -/
theorem exists_blankFrom_block {t front behind body rest : Text} {kind : BlockKind} (hopens : Opens t front kind behind)
    (hcloses : Closes kind behind body rest) (hsealed : kind ≠ .comment → ClosesComments body) (position : Nat)
    (previous : Option Char) :
    ∃ written position' previous', Apart written ∧
      blankFrom position previous t = front ++ (written ++ blankFrom position' previous' rest) := by
  have hblock : kind.opener ++ behind = (Piece.block kind body).source ++ rest := by
    rw [hcloses.eq, Piece.source]
    simp
  have ht : t = front ++ ((Piece.block kind body).source ++ rest) := by
    rw [hopens.eq, List.append_assoc, hblock]
  have hnone : ∀ a b, front = a ++ b → b ≠ [] →
      ¬ "<!--".toList <+: b ++ ((Piece.block kind body).source ++ rest) :=
    fun a b heq hne => hblock ▸ not_prefix_of_opens hopens heq hne
  obtain ⟨position', previous', hfront⟩ := exists_blankFrom_eq_append hnone position previous
  obtain ⟨written, position'', previous'', hwritten, hbordered⟩ :=
    exists_blankFrom_eq_written (endsInside_block hcloses hsealed) position' previous'
  refine ⟨written, position'', previous'', apart_of_bordered (apart_source kind body) hbordered, ?_⟩
  rw [ht, hfront, hwritten]

/-- A text without blocks is left as it is. -/
lemma blankFrom_of_plain {t : Text} (h : Plain t) (position : Nat) (previous : Option Char) :
    blankFrom position previous t = t := by
  have hnone : ∀ a b, t = a ++ b → b ≠ [] → ¬ "<!--".toList <+: b ++ [] := fun a b heq _ => not_prefix_of_plain h heq
  obtain ⟨position', previous', heq⟩ := exists_blankFrom_eq_append hnone position previous
  rw [List.append_nil] at heq
  rw [heq]
  exact List.append_nil t

end Stencil.Inspection
