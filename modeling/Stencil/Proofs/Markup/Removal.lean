import Mathlib.Logic.Function.Iterate
import Stencil.Proofs.Markup.Neutral
import Stencil.Proofs.Markup.TagForm
import Stencil.Proofs.Pattern.Opening
import Stencil.Proofs.Pattern.Search

/-!
# When nothing is left to remove

Elements that are dangerous with their content, and comments, are removed round by round. A text is settled when none
of them occurs in it, and this is when a round removes nothing (`sweep_eq_self_iff`). Every match begins with a `<`, so
each round before that takes one of these with it, and a text is settled after as many rounds as it has brackets
(`settled_or_count_le`). Comments that are put into one another need just that many (`sweep_nestedComment`), so no
number of rounds is enough for all texts.

Main statement: what some rounds leave is settled exactly if one more would remove nothing, as it is for every document
of no more brackets than rounds. The sanitised document is settled in any case, since a `<` in it begins a tag that is
allowed (`settled_sweepRounds`).
-/

namespace Stencil.Markup

open Pattern

/-! ## Settled texts -/

/-- Nothing that is removed occurs in a text. -/
def Settled (t : Text) : Prop := ∀ pattern ∈ removed, pattern.occursIn t = false

lemma opensWith_element (name : Text) : (element name).OpensWith '<' := by
  unfold element
  iterate 13 refine OpensWith.append ?_ _
  exact opensWith_exactly '<'

lemma opensWith_comment : comment.OpensWith '<' := ((opensWith_literal '<' _).append _).append _

lemma opensWith_of_mem_removed {pattern : Pattern} (h : pattern ∈ removed) : pattern.OpensWith '<' := by
  rcases List.mem_append.1 h with h | h
  · obtain ⟨name, -, rfl⟩ := List.mem_map.1 h
    exact opensWith_element name
  · rw [List.mem_singleton.1 h]
    exact opensWith_comment

/-- A text without brackets is settled. -/
lemma settled_of_not_mem {t : Text} (h : '<' ∉ t) : Settled t :=
  fun _ hpattern => (opensWith_of_mem_removed hpattern).occursIn_eq_false h

/-- The beginning of an element up to the end of its name. -/
def elementHead (name : Text) : Pattern := exactly '<' ++ blanks ++ word name ++ .wordBoundary

/-- Where an element matches, its head does. -/
lemma exists_mem_ends_elementHead {name t : Text} {p : Place} {e : Place × Text} (h : e ∈ (element name).ends p t) :
    ∃ e', e' ∈ (elementHead name).ends p t := by
  have hfirst : ∀ {first second : Pattern} {e : Place × Text}, e ∈ (first ++ second).ends p t →
      ∃ e', e' ∈ first.ends p t := by
    rintro first second ⟨p', t'⟩ he
    obtain ⟨q, s, hfirst, -⟩ := mem_ends_sequence.1 he
    exact ⟨(q, s), hfirst⟩
  unfold element at h
  iterate 9 obtain ⟨e, h⟩ := hfirst h
  exact hfirst h

/-- An element begins with a bracket, blanks and its name, and the name ends there. -/
lemma exists_of_mem_ends_element {name t : Text} {p : Place} {e : Place × Text} (h : e ∈ (element name).ends p t) :
    ∃ b w rest, t = '<' :: b ++ w ++ rest ∧ Text.Blanks b ∧ w.map fold = name ∧
      atWordBoundary (p.after ('<' :: b ++ w)) rest = true := by
  obtain ⟨⟨p3, t3⟩, hhead⟩ := exists_mem_ends_elementHead h
  obtain ⟨p2, t2, hfront, hboundary⟩ := mem_ends_sequence.1 hhead
  obtain ⟨p1, t1, hfront, hword⟩ := mem_ends_sequence.1 hfront
  obtain ⟨p0, t0, hopening, hblanks⟩ := mem_ends_sequence.1 hfront
  obtain ⟨rfl, rfl⟩ := mem_ends_exactly.1 hopening
  obtain ⟨b, hb, rfl, rfl⟩ := mem_ends_many.1 hblanks
  obtain ⟨w, hw, rfl, rfl⟩ := mem_ends_chars.1 hword
  obtain ⟨hedge, -, -⟩ := mem_ends_wordBoundary.1 hboundary
  refine ⟨b, w, t2, by simp, hb, forall₂_word_iff.1 hw, ?_⟩
  rw [Place.after_append, Place.after_cons]
  exact hedge

lemma least_element_pos (name : Text) : 0 < (element name).least := Nat.succ_pos _

lemma least_pos_of_mem_removed {pattern : Pattern} (h : pattern ∈ removed) : 0 < pattern.least := by
  rcases List.mem_append.1 h with h | h
  · obtain ⟨name, -, rfl⟩ := List.mem_map.1 h
    exact least_element_pos name
  · rw [List.mem_singleton.1 h]
    decide

/-- The names of elements are words of letters. -/
lemma letters_of_fold_mem_contentTags {w : Text} (h : w.map fold ∈ contentTags) :
    w ≠ [] ∧ ∀ c ∈ w, isLetter c = true := by
  have hall : ∀ name ∈ contentTags, name ≠ [] ∧ name.all Char.isLower = true := by decide
  obtain ⟨hne, hlower⟩ := hall _ h
  exact ⟨fun hnil => hne (by rw [hnil]; rfl), fun c hc => List.all_eq_true.1 hlower _ (List.mem_map_of_mem hc)⟩

/-! ## One round -/

lemma remove_sublist (pattern : Pattern) (t : Text) : (remove pattern t).Sublist t :=
  replaceAll_induction (R := fun s s' => List.Sublist s' s) List.Sublist.refl (fun h h' => h.append h')
    (fun _ => List.nil_sublist _) t

/-- A removal that finds something takes an opening bracket with it. -/
lemma count_remove_lt {pattern : Pattern} (hpattern : pattern.OpensWith '<') {t : Text}
    (h : pattern.occursIn t = true) : (remove pattern t).count '<' < t.count '<' := by
  have hle := hpattern.count_replaceAll_le (fun _ => []) (fun _ => List.not_mem_nil) t
  have hfound : 0 < (pattern.findAll t).length := by
    rw [occursIn, find?_eq_head?_findAll, List.isSome_head?] at h
    exact List.length_pos_iff.2 (by simpa using h)
  exact Nat.lt_of_lt_of_le (Nat.lt_add_of_pos_right hfound) hle

lemma foldl_remove_sublist (patterns : List Pattern) (t : Text) :
    (patterns.foldl (fun t pattern => remove pattern t) t).Sublist t := by
  induction patterns generalizing t with
  | nil => exact List.Sublist.refl t
  | cons pattern rest ih => exact (ih _).trans (remove_sublist pattern t)

lemma sweep_sublist (t : Text) : (sweep t).Sublist t := foldl_remove_sublist removed t

/-- If none of some patterns occurs, nothing is removed; else the first that does takes a bracket away. -/
lemma foldl_remove_cases {patterns : List Pattern} (hpatterns : ∀ pattern ∈ patterns, pattern.OpensWith '<')
    (t : Text) :
    (∀ pattern ∈ patterns, pattern.occursIn t = false) ∧ patterns.foldl (fun t pattern => remove pattern t) t = t ∨
      (∃ pattern ∈ patterns, pattern.occursIn t = true) ∧
        (patterns.foldl (fun t pattern => remove pattern t) t).count '<' < t.count '<' := by
  induction patterns with
  | nil => exact .inl ⟨by simp, rfl⟩
  | cons pattern rest ih =>
    obtain ⟨hpattern, hrest⟩ := List.forall_mem_cons.1 hpatterns
    rw [List.foldl_cons]
    cases hoccurs : pattern.occursIn t with
    | true =>
      have hle := (foldl_remove_sublist rest (remove pattern t)).count_le '<'
      exact .inr ⟨⟨pattern, List.mem_cons_self, hoccurs⟩, Nat.lt_of_le_of_lt hle (count_remove_lt hpattern hoccurs)⟩
    | false =>
      rw [remove, replaceAll_of_occursIn_eq_false hoccurs, List.forall_mem_cons]
      rcases ih hrest with ⟨hnone, hsame⟩ | ⟨⟨other, hother, hoccurs'⟩, hlt⟩
      · exact .inl ⟨⟨hoccurs, hnone⟩, hsame⟩
      · exact .inr ⟨⟨other, List.mem_cons_of_mem _ hother, hoccurs'⟩, hlt⟩

/-- A round leaves a settled text as it is, and takes a bracket away from any other. -/
lemma sweep_cases (t : Text) : Settled t ∧ sweep t = t ∨ ¬ Settled t ∧ (sweep t).count '<' < t.count '<' := by
  refine (foldl_remove_cases (fun _ => opensWith_of_mem_removed) t).imp_right ?_
  rintro ⟨⟨pattern, hpattern, hoccurs⟩, hlt⟩
  refine ⟨fun hsettled => ?_, hlt⟩
  rw [hsettled pattern hpattern] at hoccurs
  exact Bool.false_ne_true hoccurs

/-- A round removes nothing exactly if there is nothing to remove. -/
theorem sweep_eq_self_iff {t : Text} : sweep t = t ↔ Settled t := by
  rcases sweep_cases t with ⟨hsettled, hsame⟩ | ⟨hsettled, hlt⟩
  · exact iff_of_true hsame hsettled
  · refine iff_of_false (fun hsame => ?_) hsettled
    rw [hsame] at hlt
    exact Nat.lt_irrefl _ hlt

/-! ## Many rounds -/

/-- To stop early makes no difference: a round that removes nothing would be followed by such rounds only. -/
lemma sweepRounds_eq_iterate (rounds : Nat) (t : Text) : sweepRounds rounds t = sweep^[rounds] t := by
  induction rounds generalizing t with
  | zero => rfl
  | succ rounds ih =>
    rw [sweepRounds, Function.iterate_succ_apply]
    split
    · rename_i hlength
      have hsame : sweep t = t := (sweep_sublist t).eq_of_length hlength
      rw [hsame, Function.iterate_fixed hsame]
    · exact ih (sweep t)

lemma sweepRounds_of_settled {t : Text} (h : Settled t) (rounds : Nat) : sweepRounds rounds t = t := by
  rw [sweepRounds_eq_iterate, Function.iterate_fixed (sweep_eq_self_iff.2 h)]

/-- Each round that does not find the text settled leaves a bracket less. -/
theorem settled_or_count_le (rounds : Nat) (t : Text) :
    Settled (sweepRounds rounds t) ∨ (sweepRounds rounds t).count '<' + rounds ≤ t.count '<' := by
  rw [sweepRounds_eq_iterate]
  induction rounds with
  | zero => exact .inr (Nat.le_refl _)
  | succ rounds ih =>
    rw [Function.iterate_succ_apply']
    rcases sweep_cases (sweep^[rounds] t) with ⟨hsettled, hsame⟩ | ⟨hsettled, hlt⟩
    · rw [hsame]
      exact .inl hsettled
    · have hle := ih.resolve_left hsettled
      exact .inr (by omega)

/-- As many rounds as there are brackets are enough. -/
lemma settled_of_count_le {rounds : Nat} {t : Text} (h : t.count '<' ≤ rounds) : Settled (sweepRounds rounds t) := by
  rcases settled_or_count_le rounds t with hsettled | hle
  · exact hsettled
  · exact settled_of_not_mem (List.count_eq_zero.1 (by omega))

/-- What some rounds leave is settled if one more would remove nothing. -/
lemma settled_iff_iterate_succ {rounds : Nat} {t : Text} :
    Settled (sweepRounds rounds t) ↔ sweep^[rounds + 1] t = sweep^[rounds] t := by
  rw [sweepRounds_eq_iterate, Function.iterate_succ_apply', sweep_eq_self_iff]

/-! ## Comments inside comments -/

/-- Comments put into one another, the beginning of each interrupted by the next one. -/
def nestedComment : Nat → Text
  | 0 => "<!---->"
  | levels + 1 => "<!-".toList ++ nestedComment levels ++ "--->".toList

lemma nestedComment_zero : nestedComment 0 = "<!---->".toList := rfl

lemma nestedComment_succ (levels : Nat) :
    nestedComment (levels + 1) = "<!-".toList ++ nestedComment levels ++ "--->".toList := rfl

/-- A nested comment has one opening bracket for each level and one more. -/
lemma count_nestedComment (levels : Nat) : (nestedComment levels).count '<' = levels + 1 := by
  induction levels with
  | zero => decide
  | succ levels ih =>
    have hopening : "<!-".toList.count '<' = 1 := by decide
    have hclosing : "--->".toList.count '<' = 0 := by decide
    rw [nestedComment_succ, List.count_append, List.count_append, ih, hopening, hclosing]
    omega

lemma exists_nestedComment_eq_cons (levels : Nat) : ∃ rest, nestedComment levels = '<' :: rest := by
  cases levels <;> exact ⟨_, rfl⟩

/-- No letter stands in comments of this kind. -/
lemma isLetter_of_mem_nestedComment {levels : Nat} {c : Char} (h : c ∈ nestedComment levels) :
    isLetter c = false := by
  have hall : "<!---->".toList.all (fun c => !isLetter c) = true := by decide
  have hsigns : ∀ c ∈ "<!---->".toList, isLetter c = false := fun c hc => by simpa using List.all_eq_true.1 hall c hc
  induction levels with
  | zero => exact hsigns c h
  | succ levels ih =>
    rcases List.mem_append.1 h with h | h
    · rcases List.mem_append.1 h with h | h
      · exact hsigns c (List.mem_of_mem_take (i := 3) h)
      · exact ih h
    · exact hsigns c (List.mem_of_mem_drop (i := 3) h)

/-- The name of an element is in every text in which the element occurs. -/
lemma exists_isLetter_of_occursIn_element {name t : Text} (hname : name ∈ contentTags)
    (h : (element name).occursIn t = true) : ∃ c ∈ t, isLetter c = true := by
  obtain ⟨front, behind, rfl, hends⟩ := (occursIn_eq_true_iff (least_element_pos name)).1 h
  obtain ⟨e, he⟩ := List.exists_mem_of_ne_nil _ hends
  obtain ⟨b, w, rest, rfl, -, hw, -⟩ := exists_of_mem_ends_element he
  obtain ⟨hne, hletters⟩ := letters_of_fold_mem_contentTags (hw ▸ hname)
  obtain ⟨c, hc⟩ := List.exists_mem_of_ne_nil w hne
  exact ⟨c, by simp [hc], hletters c hc⟩

/-- No element occurs in a nested comment. -/
lemma occursIn_element_nestedComment {name : Text} (hname : name ∈ contentTags) (levels : Nat) :
    (element name).occursIn (nestedComment levels) = false := by
  rw [← Bool.not_eq_true]
  intro hoccurs
  obtain ⟨c, hc, hletter⟩ := exists_isLetter_of_occursIn_element hname hoccurs
  rw [isLetter_of_mem_nestedComment hc] at hletter
  exact Bool.false_ne_true hletter

/-- The innermost comment is found, whatever follows it. -/
lemma matchAt?_comment_nil (position : Nat) (previous : Option Char) (t : Text) :
    ∃ m, comment.matchAt? position previous (nestedComment 0 ++ t) = some m ∧ m.text = nestedComment 0 := by
  have hsearch : comment.search (fun q _ => some q) ⟨position, previous, []⟩ (nestedComment 0 ++ t) =
      some ((Place.after ⟨position, previous, []⟩ "<!--".toList).after ([] ++ "-->".toList)) := by
    have hcut : Text.cutAt? "-->" ("-->".toList ++ t) = some ([], t) := rfl
    have hfirst := search_literal_append "<!--".toList
      (fun q s => (anything ++ literal "-->").search (fun q _ => some q) q s) ⟨position, previous, []⟩
      ("-->".toList ++ t)
    rw [search_anything, hcut] at hfirst
    exact hfirst
  exact ⟨_, matchAt?_eq_some hsearch (by simp [nestedComment_zero]) (by decide), rfl⟩

/-- A beginning that is interrupted is none. -/
lemma matchAt?_comment_interrupted (position : Nat) (previous : Option Char) (t : Text) :
    comment.matchAt? position previous ("<!-".toList ++ '<' :: t) = none := by
  refine matchAt?_eq_none fun p' t' hmem => ?_
  obtain ⟨q, s, hfront, -⟩ := mem_ends_sequence.1 hmem
  obtain ⟨q', s', hopening, -⟩ := mem_ends_sequence.1 hfront
  have heq := (mem_ends_literal.1 hopening).1
  simp at heq

/-- The start of a comment that an opening bracket interrupts is kept. -/
lemma replaceFrom_interrupted (position : Nat) (previous : Option Char) (t : Text) :
    comment.replaceFrom (fun _ => []) position previous ("<!-".toList ++ '<' :: t) =
      "<!-".toList ++ comment.replaceFrom (fun _ => []) (position + 3) (some '-') ('<' :: t) := by
  have hmore := opensWith_comment.replaceFrom_append (w := "!-".toList) (by decide) (fun _ => []) (position + 1)
    (some '<') ('<' :: t)
  exact (replaceFrom_cons (matchAt?_comment_interrupted position previous t)).trans (congrArg _ hmore)

/-- Of comments inside comments the innermost one is removed. -/
lemma replaceFrom_nestedComment (levels : Nat) {tail : Text} (htail : '<' ∉ tail) (position : Nat)
    (previous : Option Char) :
    comment.replaceFrom (fun _ => []) position previous (nestedComment (levels + 1) ++ tail) =
      nestedComment levels ++ tail := by
  have htail' : '<' ∉ "--->".toList ++ tail := by simp [htail]
  induction levels generalizing tail position previous with
  | zero =>
    obtain ⟨m, hm, htext⟩ := matchAt?_comment_nil (position + 3) (some '-') ("--->".toList ++ tail)
    have hinner : comment.replaceFrom (fun _ => []) (position + 3) (some '-')
        (nestedComment 0 ++ ("--->".toList ++ tail)) = "--->".toList ++ tail := by
      rw [replaceFrom_append hm htext (List.cons_ne_nil _ _)]
      exact opensWith_comment.replaceFrom_of_not_mem htail' _ _ _
    have houter := replaceFrom_interrupted position previous ("!---->".toList ++ ("--->".toList ++ tail))
    exact houter.trans (congrArg _ hinner)
  | succ levels ih =>
    obtain ⟨rest, hrest⟩ := exists_nestedComment_eq_cons (levels + 1)
    have hwrapped : ∀ levels, nestedComment (levels + 1) ++ tail =
        "<!-".toList ++ (nestedComment levels ++ ("--->".toList ++ tail)) := fun levels => by
      rw [nestedComment_succ, List.append_assoc, List.append_assoc]
    have hinner := ih htail' (position + 3) (some '-') (by simp [htail])
    rw [hwrapped (levels + 1), hwrapped levels, ← hinner, hrest, List.cons_append]
    exact replaceFrom_interrupted position previous _

/-- A sweep takes the innermost comment out, and the halves around it become a comment. -/
theorem sweep_nestedComment (levels : Nat) : sweep (nestedComment (levels + 1)) = nestedComment levels := by
  have helements : ∀ names : List Text, (∀ name ∈ names, name ∈ contentTags) →
      (names.map element).foldl (fun t pattern => remove pattern t) (nestedComment (levels + 1)) =
        nestedComment (levels + 1) := by
    intro names hnames
    induction names with
    | nil => rfl
    | cons name rest ih =>
      obtain ⟨hname, hrest⟩ := List.forall_mem_cons.1 hnames
      rw [List.map_cons, List.foldl_cons, remove,
        replaceAll_of_occursIn_eq_false (occursIn_element_nestedComment hname _)]
      exact ih hrest
  have hcomment := replaceFrom_nestedComment levels (List.not_mem_nil (a := '<')) 0 none
  rw [List.append_nil, List.append_nil] at hcomment
  rw [sweep, removed, List.foldl_append, helements contentTags fun _ => id, List.foldl_cons, List.foldl_nil, remove,
    replaceAll_eq, hcomment]

/-- Comments inside comments are not settled after as many rounds as there are levels around the innermost. -/
lemma not_settled_nestedComment (levels : Nat) : ¬ Settled (sweepRounds levels (nestedComment levels)) := by
  have hswept : sweep^[levels] (nestedComment levels) = nestedComment 0 := by
    induction levels with
    | zero => rfl
    | succ levels ih => rw [Function.iterate_succ_apply, sweep_nestedComment, ih]
  rw [sweepRounds_eq_iterate, hswept]
  intro hsettled
  have hoccurs : comment.occursIn (nestedComment 0) = true := by decide +kernel
  rw [hsettled comment (List.mem_append_right _ (List.mem_singleton_self _))] at hoccurs
  exact Bool.false_ne_true hoccurs

/-! ## Tags that are allowed -/

/-- Small letters and digits count for themselves. -/
lemma fold_of_isLower_or_isDigit {c : Char} (h : c.isLower = true ∨ c.isDigit = true) : fold c = c := by
  have hsign : ∀ d : Char, d.isLower = false → d.isDigit = false → c ≠ d := by
    rintro d hlower hdigit rfl
    simp [hlower, hdigit] at h
  rw [fold, if_neg (by simpa using hsign '\u017f' (by decide) (by decide)),
    if_neg (by simpa using hsign '\u212a' (by decide) (by decide)),
    Text.toLower_of_not_isUpper (Text.not_isUpper_of_isLower_or_isDigit h)]

lemma TagName.isLetter_head {extra : List Text} {name : Text} (h : TagName extra name) :
    ∃ c rest, name = c :: rest ∧ isLetter c = true := by
  obtain ⟨c, rest, rfl, hc, -⟩ := h.lower
  exact ⟨c, rest, rfl, by rw [isLetter, fold_of_isLower_or_isDigit (.inl hc), hc]⟩

lemma TagName.isLower_or_isDigit {extra : List Text} {name : Text} (h : TagName extra name) :
    ∀ c ∈ name, c.isLower = true ∨ c.isDigit = true := by
  obtain ⟨c, rest, rfl, hc, hrest⟩ := h.lower
  exact List.forall_mem_cons.2 ⟨.inl hc, hrest⟩

lemma TagName.map_fold {extra : List Text} {name : Text} (h : TagName extra name) : name.map fold = name := by
  rw [List.map_congr_left fun c hc => fold_of_isLower_or_isDigit (h.isLower_or_isDigit c hc)]
  exact List.map_id' name

/-- A tag name has only word characters. -/
lemma TagName.isWordChar {extra : List Text} {name : Text} (h : TagName extra name) :
    ∀ c ∈ name, Text.isWordChar c = true := by
  intro c hc
  rcases h.isLower_or_isDigit c hc with hlower | hdigit
  · exact isWordChar_of_isLetter (by rw [isLetter, fold_of_isLower_or_isDigit (.inl hlower), hlower])
  · obtain ⟨-, hmost⟩ := Char.isDigit_iff_toNat.1 hdigit
    have hnine : '9'.toNat = 57 := rfl
    rw [Text.isWordChar, if_pos (by omega), Char.isAlphanum, hdigit, Bool.or_true]
    rfl

/-- What stands in a tag behind its bracket: a slash, or a name and then a sign that is in no word. -/
lemma TagForm.exists_head {extra : List Text} {w : Text} (h : TagForm extra w) :
    (∃ rest, w = '<' :: '/' :: rest) ∨
      ∃ name c rest, TagName extra name ∧ w = '<' :: (name ++ c :: rest) ∧ Text.isWordChar c = false := by
  have hblank : Text.isWordChar ' ' = false := by decide
  have hclose : Text.isWordChar '>' = false := by decide
  cases h with
  | closing hname => exact .inl ⟨_, rfl⟩
  | @opening name hname attributes hattributes slash =>
    right
    cases attributes with
    | nil =>
      cases slash with
      | false => exact ⟨name, '>', [], hname, by simp, hclose⟩
      | true => exact ⟨name, ' ', ['/', '>'], hname, by simp, hblank⟩
    | cons a attributes =>
      obtain ⟨more, rfl⟩ : ∃ more, a = ' ' :: more := by
        cases hattributes a List.mem_cons_self with
        | bare => exact ⟨_, rfl⟩
        | valued => exact ⟨_, rfl⟩
      exact ⟨name, ' ', more ++ (attributes.flatten ++ ((if slash then [' ', '/'] else []) ++ ['>'])), hname, by simp,
        hblank⟩

/-- A word that ends at a boundary is all of the word that stands there. -/
lemma eq_of_atWordBoundary {p : Place} {own more w behind : Text} (heq : own ++ more = w ++ behind)
    (hown : ∀ c ∈ own, Text.isWordChar c = true) (hmore : Stops Text.isWordChar more) (hne : w ≠ [])
    (hw : ∀ c ∈ w, Text.isWordChar c = true) (hboundary : atWordBoundary (p.after w) behind = true) : own = w := by
  have hlast : (p.after w).previous.any Text.isWordChar = true := by
    rw [Place.previous_after, List.getLast?_eq_some_getLast hne, Option.some_or, Option.any_some]
    exact hw _ (List.getLast_mem hne)
  have hbehind : Stops Text.isWordChar behind := by
    intro c hc
    rw [Option.mem_def] at hc
    simpa [atWordBoundary, hlast, hc] using hboundary
  have htaken := congrArg (List.takeWhile Text.isWordChar) heq
  rwa [takeWhile_append_of_stops hown hmore, takeWhile_append_of_stops hw hbehind] at htaken

/-- An element that begins without blanks begins with its name. -/
lemma exists_of_mem_ends_element_cons {name t : Text} {p : Place} {e : Place × Text} {c : Char}
    (hc : Text.isBlank c = false) (h : e ∈ (element name).ends p ('<' :: c :: t)) :
    ∃ w rest, c :: t = w ++ rest ∧ w.map fold = name ∧ atWordBoundary ((p.next '<').after w) rest = true := by
  obtain ⟨b, w, rest, heq, hb, hw, hboundary⟩ := exists_of_mem_ends_element h
  rw [List.cons_append, List.cons_append, List.cons.injEq] at heq
  cases b with
  | nil => exact ⟨w, rest, heq.2, hw, hboundary⟩
  | cons d b =>
    have hd := hb d List.mem_cons_self
    rw [List.cons_append, List.cons_append, List.cons.injEq] at heq
    rw [← heq.2.1, hc] at hd
    exact absurd hd Bool.false_ne_true

/-- No element that is removed begins where a tag does. -/
lemma TagForm.ends_element_eq_nil {extra : List Text} {tag : Text} (h : TagForm extra tag) {name : Text}
    (hname : name ∈ contentTags) (p : Place) (rest : Text) : (element name).ends p (tag ++ rest) = [] := by
  rw [List.eq_nil_iff_forall_not_mem]
  intro e he
  rcases h.exists_head with ⟨more, rfl⟩ | ⟨own, c, more, hown, rfl, hc⟩
  · obtain ⟨w, behind, heq, rfl, -⟩ := exists_of_mem_ends_element_cons (by decide) he
    obtain ⟨hne, hletters⟩ := letters_of_fold_mem_contentTags hname
    obtain ⟨d, w, rfl⟩ := List.exists_cons_of_ne_nil hne
    rw [List.cons_append, List.cons.injEq] at heq
    have hd := hletters d List.mem_cons_self
    rw [← heq.1] at hd
    exact absurd hd (by decide)
  · obtain ⟨d, own', hcons, hd⟩ := hown.isLetter_head
    have hsource : '<' :: (own ++ c :: more) ++ rest = '<' :: d :: (own' ++ c :: (more ++ rest)) := by simp [hcons]
    rw [hsource] at he
    obtain ⟨w, behind, heq, rfl, hboundary⟩ := exists_of_mem_ends_element_cons (isBlank_of_isLetter hd) he
    obtain ⟨hne, hletters⟩ := letters_of_fold_mem_contentTags hname
    have hstops : Stops Text.isWordChar (c :: (more ++ rest)) := fun d hd => by
      obtain rfl := Option.some.inj hd
      exact hc
    -- the name of the element would be the name of the tag, and that is allowed
    have hsame : own = w := by
      rw [← List.cons_append, ← hcons] at heq
      exact eq_of_atWordBoundary heq hown.isWordChar hstops hne (fun d hd => isWordChar_of_isLetter (hletters d hd))
        hboundary
    have hforbidden : ∀ name ∈ contentTags, name ∈ forbiddenTags := by decide
    rw [← hsame, hown.map_fold] at hname
    exact hown.permitted (hforbidden _ hname)

/-- No comment begins where a tag does. -/
lemma TagForm.ends_comment_eq_nil {extra : List Text} {tag : Text} (h : TagForm extra tag) (p : Place) (rest : Text) :
    comment.ends p (tag ++ rest) = [] := by
  rw [List.eq_nil_iff_forall_not_mem]
  rintro ⟨p', t'⟩ he
  obtain ⟨q, s, hfront, -⟩ := mem_ends_sequence.1 he
  obtain ⟨q', s', hopening, -⟩ := mem_ends_sequence.1 hfront
  obtain ⟨heq, -⟩ := mem_ends_literal.1 hopening
  rcases h.exists_head with ⟨more, rfl⟩ | ⟨own, c, more, hown, rfl, -⟩
  · simp at heq
  · obtain ⟨d, own', rfl, hd⟩ := hown.isLetter_head
    have hsign : d = '!' := Option.some.inj (congrArg (fun t => t.tail.head?) heq)
    rw [hsign] at hd
    exact absurd hd (by decide)

/-- A text in which every `<` begins a tag that is allowed is settled. -/
lemma settled_of_tagForm {extra : List Text} {t : Text}
    (h : ∀ front behind, t = front ++ '<' :: behind → ∃ tag rest, '<' :: behind = tag ++ rest ∧ TagForm extra tag) :
    Settled t := by
  intro pattern hpattern
  rw [Bool.eq_false_iff]
  intro hoccurs
  obtain ⟨front, behind, heq, hends⟩ := (occursIn_eq_true_iff (least_pos_of_mem_removed hpattern)).1 hoccurs
  obtain ⟨e, he⟩ := List.exists_mem_of_ne_nil _ hends
  obtain ⟨rest, rfl⟩ := opensWith_of_mem_removed hpattern _ _ e he
  obtain ⟨tag, more, htag, hform⟩ := h front rest heq
  rw [htag] at hends
  rcases List.mem_append.1 hpattern with hpattern | hpattern
  · obtain ⟨name, hname, rfl⟩ := List.mem_map.1 hpattern
    exact hends (hform.ends_element_eq_nil hname _ _)
  · rw [List.mem_singleton.1 hpattern] at hends
    exact hends (hform.ends_comment_eq_nil _ _)

/-- Nothing is left to remove in a sanitised document. -/
lemma settled_sanitize (extra : List Text) (html : Text) : Settled ((Sanitizer.ofExtraTags extra).sanitize html) := by
  have htags : ∀ front behind, (Sanitizer.ofExtraTags extra).sanitize html = front ++ '<' :: behind →
      ∃ tag rest, '<' :: behind = tag ++ rest ∧ TagForm extra tag := by
    intro front behind heq
    rw [Sanitizer.sanitize, Sanitizer.rebuild_eq] at heq
    refine exists_tagForm_of_flatten_eq (fun w hw => ?_) heq
    obtain ⟨part, hpart, rfl⟩ := List.mem_map.1 hw
    exact written_part hpart
  exact settled_of_tagForm htags

/-! ## How far the rounds go -/

/-- What some rounds of removal leave is settled exactly if one more would remove nothing. So it is if the document had
no more brackets than there were rounds, and with one bracket more it may be otherwise. The sanitised document is
settled, whatever was left. -/
theorem settled_sweepRounds (extra : List Text) (rounds : Nat) (html : Text) :
    (Settled (sweepRounds rounds html) ↔ sweep^[rounds + 1] html = sweep^[rounds] html) ∧
      (html.count '<' ≤ rounds → Settled (sweepRounds rounds html)) ∧
      (∃ nested : Text, nested.count '<' = rounds + 1 ∧ ¬ Settled (sweepRounds rounds nested)) ∧
      Settled ((Sanitizer.ofExtraTags extra).sanitize html) := by
  refine ⟨settled_iff_iterate_succ, settled_of_count_le, ?_, ?_⟩
  · exact ⟨nestedComment rounds, count_nestedComment rounds, not_settled_nestedComment rounds⟩
  · exact settled_sanitize extra html

/-- A script that is split eight times over is put together again, and the rounds end before it is removed. What it held
is handed out. -/
theorem exists_not_settled :
    ∃ html : Text,
      html = ("<sc<sc<sc<sc<sc<sc<sc<sc<script></script>ript></script>ript></script>ript></script>ript></script>" ++
        "ript></script>ript></script>ript></script>ript>alert(1)</script>").toList ∧
      ¬ Settled (sweepRounds maxRounds html) ∧ (Sanitizer.ofExtraTags []).sanitize html = "alert(1)" := by
  refine ⟨_, rfl, ?_⟩
  generalize hhtml : String.toList _ = html
  have hrounds : sweepRounds maxRounds html = "<script>alert(1)</script>" := by
    rw [← hhtml]
    decide +kernel
  rw [Sanitizer.sanitize, hrounds]
  refine ⟨fun hsettled => ?_, by decide +kernel⟩
  have hoccurs : (element "script").occursIn "<script>alert(1)</script>" = true := by decide +kernel
  rw [hsettled (element "script") (List.mem_append_left _ (List.mem_map_of_mem (by decide)))] at hoccurs
  exact Bool.false_ne_true hoccurs

end Stencil.Markup
