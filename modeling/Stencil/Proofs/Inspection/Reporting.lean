import Stencil.Inspection.Signatures
import Stencil.Proofs.Pattern.Matches

/-!
# What a scan reports

A set of rules reports a span of a text once, however many of its rules find it (`Pattern.Found`). The first of these
rules (`FirstFinder`) tells the place of the span among the issues.

Main statement: a scan has one issue for each span that a rule finds, in the order of the rules and from left to right,
and the first match is what the first issue shows (`scan_reports`).
-/

namespace Stencil.Inspection.SignatureSet

open Pattern

variable {seen : List (Nat × Nat)} {ms : List Match} {m : Match}

/-! ## Matches at distinct spans -/

/-- Repeated matches are left out, and nothing else is moved. -/
lemma distinct_sublist (seen : List (Nat × Nat)) (ms : List Match) : (distinct seen ms).Sublist ms := by
  induction ms generalizing seen with
  | nil => exact .slnil
  | cons m ms ih =>
    rw [distinct]
    split
    · exact (ih seen).cons m
    · exact (ih _).cons_cons m

/-- What is kept was not seen before. -/
lemma span_not_mem_of_mem_distinct (h : m ∈ distinct seen ms) : span m ∉ seen := by
  induction ms generalizing seen with
  | nil => exact absurd h List.not_mem_nil
  | cons first ms ih =>
    rw [distinct] at h
    split at h
    · exact ih h
    · rename_i hfirst
      rcases List.mem_cons.1 h with rfl | h
      · simpa using hfirst
      · exact fun hseen => ih h (List.mem_cons_of_mem _ hseen)

/-- Of each span that was not seen before a match is kept. -/
lemma exists_mem_distinct (hm : m ∈ ms) (hseen : span m ∉ seen) : ∃ kept ∈ distinct seen ms, span kept = span m := by
  induction ms generalizing seen with
  | nil => exact absurd hm List.not_mem_nil
  | cons first ms ih =>
    rw [distinct]
    split
    · rename_i hfirst
      rcases List.mem_cons.1 hm with rfl | hm
      · exact absurd (List.contains_iff_mem.1 hfirst) hseen
      · exact ih hm hseen
    · rcases List.mem_cons.1 hm with rfl | hm
      · exact ⟨m, List.mem_cons_self, rfl⟩
      · -- the first match is kept, and may be at the same span
        by_cases hsame : span m = span first
        · exact ⟨first, List.mem_cons_self, hsame.symm⟩
        · obtain ⟨kept, hkept, hspan⟩ := ih hm (List.not_mem_cons_of_ne_of_not_mem hsame hseen)
          exact ⟨kept, List.mem_cons_of_mem _ hkept, hspan⟩

/-- Behind a list of matches their spans have been seen. -/
lemma exists_distinct_append (seen : List (Nat × Nat)) (ms later : List Match) :
    ∃ seen', distinct seen (ms ++ later) = distinct seen ms ++ distinct seen' later ∧ seen ⊆ seen' ∧
      ∀ m ∈ ms, span m ∈ seen' := by
  induction ms generalizing seen with
  | nil => exact ⟨seen, rfl, List.Subset.refl seen, fun m hm => absurd hm List.not_mem_nil⟩
  | cons m ms ih =>
    rw [List.cons_append, distinct, distinct]
    split
    · rename_i hm
      obtain ⟨seen', happend, hseen, hms⟩ := ih seen
      exact ⟨seen', happend, hseen, List.forall_mem_cons.2 ⟨hseen (List.contains_iff_mem.1 hm), hms⟩⟩
    · obtain ⟨seen', happend, hseen, hms⟩ := ih (span m :: seen)
      obtain ⟨hm, hseen⟩ := List.cons_subset.1 hseen
      exact ⟨seen', by rw [happend, List.cons_append], hseen, List.forall_mem_cons.2 ⟨hm, hms⟩⟩

/-! ## The first rule to find a span -/

/-- A rule, by its place in a list, that is the first to find a span of a text. -/
structure FirstFinder (rules : List Pattern) (t : Text) (span : Nat × Nat) (i : Nat) : Prop where
  finds : ∃ rule, rules[i]? = some rule ∧ rule.Found t span
  first : ∀ j < i, ∀ rule, rules[j]? = some rule → ¬ rule.Found t span

/-- The order in which spans are reported: by the first rules to find them, and those of one rule from left to right. -/
def Precedes (rules : List Pattern) (t : Text) (earlier later : Nat × Nat) : Prop :=
  ∃ i j, FirstFinder rules t earlier i ∧ FirstFinder rules t later j ∧ (i < j ∨ i = j ∧ earlier.1 < later.1)

variable {rule : Pattern} {rules : List Pattern} {t : Text} {span earlier later : Nat × Nat} {i j : Nat}

/-- One rule is the first that finds a span. -/
lemma FirstFinder.unique (h : FirstFinder rules t span i) (h' : FirstFinder rules t span j) : i = j := by
  obtain ⟨rule, hrule, hfound⟩ := h.finds
  obtain ⟨rule', hrule', hfound'⟩ := h'.finds
  rcases Nat.lt_trichotomy i j with hlt | heq | hgt
  · exact absurd hfound (h'.first i hlt rule hrule)
  · exact heq
  · exact absurd hfound' (h.first j hgt rule' hrule')

lemma firstFinder_zero (h : rule.Found t span) : FirstFinder (rule :: rules) t span 0 :=
  ⟨⟨rule, rfl, h⟩, fun j hj => absurd hj (Nat.not_lt_zero j)⟩

/-- If the rule in front does not find the span, the first is among the others. -/
lemma FirstFinder.succ (h : FirstFinder rules t span i) (hnot : ¬ rule.Found t span) :
    FirstFinder (rule :: rules) t span (i + 1) := by
  refine ⟨h.finds, fun j hj other hother => ?_⟩
  cases j with
  | zero =>
    obtain rfl : rule = other := Option.some.inj hother
    exact hnot
  | succ j => exact h.first j (Nat.lt_of_succ_lt_succ hj) other hother

/-- What some rule finds, some rule finds first. -/
lemma exists_firstFinder (hrule : rule ∈ rules) (h : rule.Found t span) : ∃ i, FirstFinder rules t span i := by
  induction rules with
  | nil => exact absurd hrule List.not_mem_nil
  | cons first rules ih =>
    by_cases hfirst : first.Found t span
    · exact ⟨0, firstFinder_zero hfirst⟩
    · rcases List.mem_cons.1 hrule with rfl | hrule
      · exact absurd h hfirst
      · obtain ⟨i, hi⟩ := ih hrule
        exact ⟨i + 1, hi.succ hfirst⟩

lemma Precedes.ne (h : Precedes rules t earlier later) : earlier ≠ later := by
  rintro rfl
  obtain ⟨i, j, hi, hj, hlt | ⟨-, hlt⟩⟩ := h
  · exact Nat.ne_of_lt hlt (hi.unique hj)
  · exact Nat.lt_irrefl _ hlt

lemma Precedes.succ (h : Precedes rules t earlier later) (hearlier : ¬ rule.Found t earlier)
    (hlater : ¬ rule.Found t later) : Precedes (rule :: rules) t earlier later := by
  obtain ⟨i, j, hi, hj, horder⟩ := h
  exact ⟨i + 1, j + 1, hi.succ hearlier, hj.succ hlater, horder.imp Nat.succ_lt_succ (And.imp_left (congrArg _))⟩

/-! ## All rules -/

lemma within_of_mem_flatMap (h : m ∈ rules.flatMap fun rule => rule.matchesIn t) : m.Within t := by
  obtain ⟨rule, -, hm⟩ := List.mem_flatMap.1 h
  exact within_of_mem_matchesIn hm

/-- A match that is kept once those of a rule have been seen is not found by the rule. -/
lemma not_found_of_mem_distinct (hseen : ∀ other ∈ rule.matchesIn t, SignatureSet.span other ∈ seen)
    (hm : m ∈ distinct seen ms) (hwithin : m.Within t) : ¬ rule.Found t (m.bytes t) := by
  intro hfound
  obtain ⟨other, hother, hbytes⟩ := exists_mem_matchesIn_iff.2 hfound
  -- spans are told apart by characters, and what is found by bytes
  obtain ⟨hstart, hstop⟩ := (within_of_mem_matchesIn hother).eq_of_bytes_eq hwithin hbytes
  have hsame : SignatureSet.span other = SignatureSet.span m := Prod.ext hstart hstop
  exact span_not_mem_of_mem_distinct hm (hsame ▸ hseen other hother)

/-- Matches at distinct spans are kept in the order in which spans are reported. -/
lemma pairwise_distinct (seen : List (Nat × Nat)) (rules : List Pattern) (t : Text) :
    (distinct seen (rules.flatMap fun rule => rule.matchesIn t)).Pairwise fun m later =>
      Precedes rules t (m.bytes t) (later.bytes t) := by
  induction rules generalizing seen with
  | nil => exact .nil
  | cons rule rules ih =>
    obtain ⟨seen', happend, -, hseen⟩ :=
      exists_distinct_append seen (rule.matchesIn t) (rules.flatMap fun rule => rule.matchesIn t)
    have hrow := distinct_sublist seen (rule.matchesIn t)
    have hlater := distinct_sublist seen' (rules.flatMap fun rule => rule.matchesIn t)
    have hfirst : ∀ m ∈ distinct seen (rule.matchesIn t), FirstFinder (rule :: rules) t (m.bytes t) 0 :=
      fun m hm => firstFinder_zero (exists_mem_matchesIn_iff.1 ⟨m, hrow.subset hm, rfl⟩)
    have hnot : ∀ m ∈ distinct seen' (rules.flatMap fun rule => rule.matchesIn t), ¬ rule.Found t (m.bytes t) :=
      fun m hm => not_found_of_mem_distinct hseen hm (within_of_mem_flatMap (hlater.subset hm))
    rw [List.flatMap_cons, happend]
    refine List.pairwise_append.2 ⟨?_, ?_, fun m hm later hkept => ?_⟩
    · -- the rule is the first to find all of these
      refine ((pairwise_matchesIn rule t).sublist hrow).imp_of_mem fun {m later} hm hkept hlt => ?_
      exact ⟨0, 0, hfirst m hm, hfirst later hkept, .inr ⟨rfl, hlt⟩⟩
    · exact (ih seen').imp_of_mem fun {m later} hm hkept h => h.succ (hnot m hm) (hnot later hkept)
    · -- what is kept of the other rules is found by none before them
      obtain ⟨other, hother, hfound⟩ := List.mem_flatMap.1 (hlater.subset hkept)
      obtain ⟨i, hi⟩ := exists_firstFinder hother (exists_mem_matchesIn_iff.1 ⟨later, hfound, rfl⟩)
      exact ⟨0, i + 1, hfirst m hm, hi.succ (hnot later hkept), .inl (Nat.succ_pos i)⟩

/-! ## The issues of a scan -/

/-- An excerpt of a text: all of it if it has 48 characters at most, or else so many and an ellipsis. -/
structure IsExcerpt (found excerpt : Text) : Prop where
  whole : found.length ≤ 48 → excerpt = found
  cut : 48 < found.length → excerpt = found.take 48 ++ ['…']

lemma isExcerpt_excerptOf (found : Text) : IsExcerpt found (Issue.excerptOf found) :=
  ⟨fun h => if_pos h, fun h => if_neg (Nat.not_le_of_lt h)⟩

/-- An issue of a set about a span of a text. -/
structure Shows (set : SignatureSet) (severity : Severity) (t : Text) (span : Nat × Nat) (issue : Issue) : Prop where
  category : issue.category = set.category
  severity : issue.severity = severity
  excerpt : ∃ found, Text.slice? span.1 span.2 t = some found ∧ IsExcerpt found issue.excerpt

/-- The spans that are reported of a text: those that a rule finds, each once and in the order of the rules. -/
structure Reports (set : SignatureSet) (t : Text) (spans : List (Nat × Nat)) : Prop where
  complete : ∀ span, span ∈ spans ↔ ∃ rule ∈ set.rules, rule.Found t span
  nodup : spans.Nodup
  ordered : spans.Pairwise (Precedes set.rules t)

/-- A span is reported if and only if some rule finds it. -/
lemma exists_mem_distinct_iff {set : SignatureSet} :
    (∃ m ∈ distinct [] (set.allMatches t), m.bytes t = span) ↔ ∃ rule ∈ set.rules, rule.Found t span := by
  constructor
  · rintro ⟨m, hm, rfl⟩
    obtain ⟨rule, hrule, hfound⟩ := List.mem_flatMap.1 ((distinct_sublist _ _).subset hm)
    exact ⟨rule, hrule, exists_mem_matchesIn_iff.1 ⟨m, hfound, rfl⟩⟩
  · rintro ⟨rule, hrule, hfound⟩
    obtain ⟨m, hm, rfl⟩ := exists_mem_matchesIn_iff.2 hfound
    have hall : m ∈ set.allMatches t := List.mem_flatMap.2 ⟨rule, hrule, hm⟩
    obtain ⟨kept, hkept, hspan⟩ := exists_mem_distinct hall List.not_mem_nil
    obtain ⟨hstart, hstop⟩ := Prod.mk.inj hspan
    exact ⟨kept, hkept, by rw [Match.bytes, Match.bytes, hstart, hstop]⟩

lemma reports_distinct (set : SignatureSet) (t : Text) :
    set.Reports t ((distinct [] (set.allMatches t)).map (Match.bytes t)) := by
  have hordered : ((distinct [] (set.allMatches t)).map (Match.bytes t)).Pairwise (Precedes set.rules t) :=
    List.pairwise_map.2 (pairwise_distinct [] set.rules t)
  refine ⟨fun span => ?_, hordered.imp Precedes.ne, hordered⟩
  rw [List.mem_map, exists_mem_distinct_iff]

/-- A scan has exactly one issue for each span that a rule finds, in the order of the rules and from left to right, and
there is a first match exactly if there is an issue, of which it then has the excerpt. -/
theorem scan_reports (set : SignatureSet) (severity : Severity) (t : Text) :
    (∃ spans, set.Reports t spans ∧ List.Forall₂ (set.Shows severity t) spans (set.scan severity t)) ∧
      ((set.firstMatch? t).isSome = true ↔ set.scan severity t ≠ []) ∧
      ∀ m, set.firstMatch? t = some m →
        ∃ issue, (set.scan severity t).head? = some issue ∧ IsExcerpt m.text issue.excerpt := by
  refine ⟨⟨_, set.reports_distinct t, ?_⟩, ?_, fun m hm => ?_⟩
  · rw [scan, List.forall₂_map_left_iff, List.forall₂_map_right_iff, List.forall₂_same]
    intro m hm
    have hwithin := within_of_mem_flatMap ((distinct_sublist _ _).subset hm)
    exact ⟨rfl, rfl, m.text, hwithin.slice?_bytes, isExcerpt_excerptOf m.text⟩
  · rw [← List.isSome_head?, head?_scan, Option.isSome_map]
  · exact ⟨_, by rw [head?_scan, hm]; rfl, isExcerpt_excerptOf m.text⟩

-- The first rule also matches in front of the text, where it takes nothing, and the second finds nothing new.
example : (⟨.scriptInjection, [many (· == 'a'), exactly 'a']⟩ : SignatureSet).scan .warning ['b', 'a'] =
    [⟨.scriptInjection, .warning, []⟩, ⟨.scriptInjection, .warning, ['a']⟩] := by decide

end Stencil.Inspection.SignatureSet
