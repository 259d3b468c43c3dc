import Stencil.Proofs.Inspection.Blanking
import Stencil.Proofs.Template.Keywords

/-!
# Comments that seem to be directives

What the inspection of a template takes for a directive, said without a pattern: a comment whose first word is a keyword
(`SeemsDirective`). The pattern that is looked for is found wherever one of them begins, and nowhere else
(`exists_matchAt?_of_seems`, `exists_seems_of_matchAt?`). One that goes on into another ends no earlier than this does
(`SeemsDirective.covers`).
-/

namespace Stencil.Inspection

open Pattern Template

/-! ## Beginnings of directives -/

/-- A directive seems to begin a text: a comment is in front, up to its first end, and its first word is a keyword. -/
structure SeemsDirective (t body rest : Text) : Prop where
  eq : t = (Piece.block .comment body).source ++ rest
  closes : Closes .comment (body ++ BlockKind.closer .comment ++ rest) body rest
  keyword : Token.isDirective body = true

variable {t body rest body' rest' : Text}

/-- A comment that goes on to its first end is told from what it stands in front of. -/
lemma eq_of_comment_append (h : Closes .comment (body ++ BlockKind.closer .comment ++ rest) body rest)
    (h' : Closes .comment (body' ++ BlockKind.closer .comment ++ rest') body' rest')
    (heq : (Piece.block .comment body).source ++ rest = (Piece.block .comment body').source ++ rest') :
    body = body' ∧ rest = rest' := by
  simp only [Piece.source, List.append_assoc] at heq
  rw [List.append_assoc, ← List.append_cancel_left heq, ← List.append_assoc] at h'
  exact h.unique h'

lemma SeemsDirective.unique (h : SeemsDirective t body rest) (h' : SeemsDirective t body' rest') :
    body = body' ∧ rest = rest' :=
  eq_of_comment_append h.closes h'.closes (h.eq.symm.trans h'.eq)

/-- What the pattern of directives is found for seems to be one. -/
theorem exists_seems_of_matchAt? {position : Nat} {previous : Option Char} {m : Match}
    (h : directiveComment.matchAt? position previous t = some m) :
    ∃ body rest, SeemsDirective t body rest ∧ m.text = (Piece.block .comment body).source := by
  obtain ⟨blank, keyword, more, rest, behind, rfl, hblank, hkeyword, hparted, hcut, htext⟩ :=
    exists_of_matchAt?_directive h
  refine ⟨blank ++ keyword ++ more, rest, ⟨?_, ?_, ?_⟩, htext⟩
  · rw [hcut.eq, Piece.source]
    simp [BlockKind.opener, BlockKind.closer]
  · have hbehind := hcut.eq
    rw [hbehind] at hcut
    exact hcut
  · exact Token.isDirective_iff.2 ⟨blank, keyword, more, rfl, hblank, hkeyword, hparted⟩

/-- Behind a keyword anything can be passed that begins with a blank. -/
lemma mem_ends_arguments {q : Place} {more behind : Text} (hparted : Text.Parted more) :
    (q.after more, behind) ∈ arguments.ends q (more ++ behind) := by
  refine mem_ends_choice.2 ?_
  cases more with
  | nil => exact .inr (List.mem_singleton.2 rfl)
  | cons c more =>
    have hany : (q.after (c :: more), behind) ∈ anything.ends (q.next c) (more ++ behind) :=
      mem_ends_repetition.2 ⟨more, fun _ _ => rfl, Nat.zero_le _, by simp, rfl, rfl⟩
    exact .inl (mem_ends_sequence.2 ⟨q.next c, more ++ behind, mem_ends_char.2 ⟨c, hparted c rfl, rfl, rfl⟩, hany⟩)

/-- The pattern of directives is found wherever one seems to begin, and for as much of the text. -/
theorem exists_matchAt?_of_seems (h : SeemsDirective t body rest) (position : Nat) (previous : Option Char) :
    ∃ m, directiveComment.matchAt? position previous t = some m ∧ m.text = (Piece.block .comment body).source := by
  obtain ⟨blank, keyword, more, hbody, hblank, hkeyword, hparted⟩ := Token.isDirective_iff.1 h.keyword
  have hends : directiveComment.ends ⟨position, previous, []⟩ t ≠ [] := by
    have ht : t = "<!--" ++ (blank ++ (keyword ++ (more ++ ("-->" ++ rest)))) := by
      rw [h.eq, hbody, Piece.source]
      simp [BlockKind.opener, BlockKind.closer]
    generalize (⟨position, previous, []⟩ : Place) = p
    have hopen : (p.after "<!--", blank ++ (keyword ++ (more ++ ("-->" ++ rest)))) ∈ (literal "<!--").ends p t :=
      mem_ends_literal.2 ⟨ht, rfl⟩
    have hblanks := mem_ends_sequence.2 ⟨_, _, hopen, mem_ends_many.2 ⟨blank, hblank, rfl, rfl⟩⟩
    have hfirst := mem_ends_sequence.2 ⟨_, _, hblanks, mem_ends_oneOfThese.2
      ⟨literal keyword, List.mem_map_of_mem hkeyword, mem_ends_literal.2 ⟨rfl, rfl⟩⟩⟩
    have hbehind := mem_ends_sequence.2 ⟨_, _, hfirst, mem_ends_arguments hparted⟩
    exact List.ne_nil_of_mem (mem_ends_sequence.2 ⟨_, _, hbehind, mem_ends_literal.2 ⟨rfl, rfl⟩⟩)
  cases hm : directiveComment.matchAt? position previous t with
  | none => exact absurd ((matchAt?_eq_none_iff (by decide)).1 hm) hends
  | some m =>
    obtain ⟨body', rest', h', htext⟩ := exists_seems_of_matchAt? hm
    obtain ⟨rfl, -⟩ := h.unique h'
    exact ⟨m, rfl, htext⟩

/-! ## One inside of another -/

lemma SeemsDirective.opener_prefix (h : SeemsDirective t body rest) : "<!--".toList <+: t := by
  rw [h.eq, Piece.source, List.append_assoc, List.append_assoc]
  exact List.prefix_append _ _

/-- The first end of a comment behind the opener of a directive is its own: the opener does not end with one. -/
lemma SeemsDirective.cutsFirst (h : SeemsDirective t body rest) :
    Text.CutsFirst (BlockKind.closer .comment) t (BlockKind.opener .comment ++ body) rest := by
  obtain ⟨blank, keyword, more, hbody, hblank, hkeyword, -⟩ := Token.isDirective_iff.1 h.keyword
  obtain ⟨c, inside, hinside, hdash, hclose⟩ := exists_cons_directive hblank hkeyword more
  have hhead : body = c :: inside := hbody.trans hinside
  refine ⟨h.eq, fun a b heq => ?_⟩
  have hopener : BlockKind.opener .comment = ['<', '!', '-', '-'] := rfl
  have hcloser : BlockKind.closer .comment = ['-', '-', '>'] := rfl
  rw [h.eq, Piece.source, hopener, hcloser] at heq
  rcases a with _ | ⟨_, _ | ⟨_, _ | ⟨_, _ | ⟨_, a⟩⟩⟩⟩
  · simp at heq
  · simp at heq
  · simp [hhead, hclose] at heq
  · simp [hhead, hdash] at heq
  · simp only [List.cons_append, List.nil_append, List.cons.injEq] at heq
    have hfirst := h.closes.first a b (by rw [hcloser]; simpa using heq.2.2.2.2)
    rw [hopener, List.length_append]
    simp only [List.length_cons, List.length_nil]
    omega

/-- What seems to be a directive and goes on into another one covers it. -/
theorem SeemsDirective.covers {front : Text} (h : SeemsDirective (front ++ t) body' rest')
    (hinside : SeemsDirective t body rest) (hlonger : front.length < (Piece.block .comment body').source.length) :
    front ++ (Piece.block .comment body).source <+: (Piece.block .comment body').source := by
  have hcloser : BlockKind.closer .comment = ['-', '-', '>'] := rfl
  -- what is left behind the front begins like a comment, and ends with the end of one
  obtain ⟨u, hu, hsource, ht⟩ : ∃ u, u ≠ [] ∧ (Piece.block .comment body').source = front ++ u ∧ t = u ++ rest' := by
    rcases List.append_eq_append_iff.1 h.eq with ⟨u, hsource, ht⟩ | ⟨u, rfl, -⟩
    · refine ⟨u, ?_, hsource, ht⟩
      rintro rfl
      rw [hsource, List.append_nil] at hlonger
      exact Nat.lt_irrefl _ hlonger
    · rw [List.length_append] at hlonger
      omega
  obtain ⟨c, u, rfl⟩ := List.exists_cons_of_ne_nil hu
  obtain ⟨more, hmore⟩ := hinside.opener_prefix
  obtain rfl : '<' = c := (List.cons.inj (hmore.trans ht)).1
  have hother : '<' ∉ BlockKind.closer .comment := by decide
  obtain ⟨y, -, rfl⟩ := exists_of_append_eq_append_cons hother hsource
  have hfirst : (BlockKind.opener .comment ++ body).length ≤ ('<' :: y).length := hinside.cutsFirst.first _ rest' ht
  have hshorter : (Piece.block .comment body).source.length ≤ ('<' :: (y ++ BlockKind.closer .comment)).length := by
    rw [Piece.source]
    simp only [List.length_append, List.length_cons] at hfirst ⊢
    omega
  rw [hsource, List.prefix_append_right_inj]
  exact List.prefix_of_prefix_length_le ⟨rest, hinside.eq.symm⟩ ⟨rest', ht.symm⟩ hshorter

end Stencil.Inspection
