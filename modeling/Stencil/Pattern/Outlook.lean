import Stencil.Pattern.Basic

/-!
# Where a pattern may begin

Trying a pattern at every place of a text takes time that grows with the square of the length, if the pattern passes
over many characters before it fails. So the places where it may begin are marked first, in one walk from the end of the
text to its beginning for each part of the pattern, and it is tried at these only. Edges of words and of lines are not
looked at, so a mark promises nothing; but where there is none, there is no match.

Main statements: the marks are what `mayReach` says of each place (`marks_eq_map`), and a place with an end of the
pattern is marked (`mayReach_of_mem_ends`).
-/

namespace Stencil.Pattern

/-! ## One place -/

/-- Whether a row of characters leads to a place of a kind. -/
def mayPass (goal : Text → Bool) : List (Char → Bool) → Text → Bool
  | [], t => goal t
  | _ :: _, [] => false
  | allowed :: classes, c :: rest => allowed c && mayPass goal classes rest

/-- Whether any number of characters of a class leads to a place of a kind. -/
def mayRepeat (allowed : Char → Bool) (goal : Text → Bool) : Text → Bool
  | [] => goal []
  | c :: rest => goal (c :: rest) || (allowed c && mayRepeat allowed goal rest)

/-- Whether a pattern may lead from a place to one of a kind. Of the numbers of a repetition only this counts, whether
it may be none. -/
def mayReach : Pattern → (Text → Bool) → Text → Bool
  | .empty, goal, t => goal t
  | .chars classes, goal, t => mayPass goal classes t
  | .sequence first second, goal, t => first.mayReach (second.mayReach goal) t
  | .choice first second, goal, t => first.mayReach goal t || second.mayReach goal t
  | .repetition _ allowed least _, goal, t =>
    if least = 0 then mayRepeat allowed goal t else mayPass (mayRepeat allowed goal) [allowed] t
  | .group _ inner, goal, t => inner.mayReach goal t
  | .wordBoundary, goal, t => goal t
  | .lineStart, goal, t => goal t
  | .lineEnd, goal, t => goal t

/-- Classes that are passed to a goal may be passed. -/
theorem mayPass_of_pass?_eq_some {classes : List (Char → Bool)} {goal : Text → Bool} {p p' : Place} {t t' : Text}
    (h : pass? classes p t = some (p', t')) (hgoal : goal t' = true) : mayPass goal classes t = true := by
  induction classes generalizing p t with
  | nil =>
    simp only [pass?, Option.some.injEq, Prod.mk.injEq] at h
    simpa [mayPass, h.2] using hgoal
  | cons allowed classes ih =>
    cases t with
    | nil => simp [pass?] at h
    | cons c rest =>
      simp only [pass?] at h
      split at h
      · rename_i hc
        simpa [mayPass, hc] using ih h
      · simp at h

theorem mayRepeat_of_goal {allowed : Char → Bool} {goal : Text → Bool} {t : Text} (h : goal t = true) :
    mayRepeat allowed goal t = true := by
  cases t <;> simp [mayRepeat, h]

/-- A repetition that ends at a place of the kind either takes no character, or one of the class and more behind it. -/
theorem mayRepeat_of_mem_repetitionEnds {lazy : Bool} {allowed : Char → Bool} {least : Nat} {most : Option Nat}
    {goal : Text → Bool} {p p' : Place} {t t' : Text} (h : (p', t') ∈ repetitionEnds lazy allowed least most p t)
    (hgoal : goal t' = true) :
    (least = 0 → mayRepeat allowed goal t = true) ∧
      (least ≠ 0 → mayPass (mayRepeat allowed goal) [allowed] t = true) := by
  induction t generalizing least most p with
  | nil =>
    simp only [repetitionEnds] at h
    split at h
    · rename_i hleast
      simp only [List.mem_singleton, Prod.mk.injEq] at h
      exact ⟨fun _ => by simpa [mayRepeat, ← h.2] using hgoal, fun hne => absurd hleast hne⟩
    · simp at h
  | cons c rest ih =>
    rcases mem_arrange.1 h with h | h <;> split at h
    · rename_i hleast
      simp only [List.mem_singleton, Prod.mk.injEq] at h
      exact ⟨fun _ => mayRepeat_of_goal (by rw [← h.2]; exact hgoal), fun hne => absurd hleast hne⟩
    · simp at h
    · rename_i hallowed
      simp only [Bool.and_eq_true] at hallowed
      -- behind one character the repetition goes on, at least as often as is left
      have hrest : mayRepeat allowed goal rest = true := by
        by_cases hleast : least - 1 = 0
        · exact (ih h).1 hleast
        · have := (ih h).2 hleast
          cases rest with
          | nil => simp [mayPass] at this
          | cons d rest =>
            simp only [mayPass, Bool.and_eq_true] at this
            simp [mayRepeat, this.1, this.2]
      exact ⟨fun _ => by simp [mayRepeat, hallowed.1, hrest], fun _ => by simp [mayPass, hallowed.1, hrest]⟩
    · simp at h

/-- A pattern may lead to every place where it has an end. -/
theorem mayReach_of_mem_ends {pattern : Pattern} {goal : Text → Bool} {p p' : Place} {t t' : Text}
    (h : (p', t') ∈ pattern.ends p t) (hgoal : goal t' = true) : pattern.mayReach goal t = true := by
  -- by induction on the pattern, with the goal free: behind the first pattern of a sequence, the second is the goal
  induction pattern generalizing goal p t p' t' with
  | empty =>
    simp only [ends, List.mem_singleton, Prod.mk.injEq] at h
    simpa [mayReach, ← h.2] using hgoal
  | chars classes => exact mayPass_of_pass?_eq_some (by simpa [ends] using h) hgoal
  | sequence first second ih1 ih2 =>
    obtain ⟨⟨q, s⟩, h1, h2⟩ := List.mem_flatMap.1 h
    exact ih1 h1 (ih2 h2 hgoal)
  | choice first second ih1 ih2 =>
    simp only [mayReach, Bool.or_eq_true]
    rcases List.mem_append.1 h with h | h
    · exact .inl (ih1 h hgoal)
    · exact .inr (ih2 h hgoal)
  | repetition lazy allowed least most =>
    obtain ⟨hnone, hsome⟩ := mayRepeat_of_mem_repetitionEnds h hgoal
    simp only [mayReach]
    split
    · exact hnone ‹_›
    · exact hsome ‹_›
  | group number inner ih =>
    obtain ⟨⟨q, s⟩, h1, h2⟩ := List.mem_map.1 h
    simp only [Prod.mk.injEq] at h2
    exact ih h1 (by rw [h2.2]; exact hgoal)
  | wordBoundary =>
    simp only [ends] at h
    split at h <;> simp_all [mayReach]
  | lineStart =>
    simp only [ends] at h
    split at h <;> simp_all [mayReach]
  | lineEnd =>
    simp only [ends] at h
    split at h <;> simp_all [mayReach]

/-! ## All places -/

/-- What lies ahead at each place of a text, its end included. -/
def suffixes : Text → List Text
  | [] => [[]]
  | c :: rest => (c :: rest) :: suffixes rest

/-- Whether a row of characters leads to a marked place. -/
def passesTo : List (Char → Bool) → Text → List Bool → Bool
  | [], _, marks => marks.headD false
  | _ :: _, [], _ => false
  | allowed :: classes, c :: rest, marks => allowed c && passesTo classes rest marks.tail

/-- The places from which a row of characters leads to a marked one. -/
def markPasses (classes : List (Char → Bool)) : Text → List Bool → List Bool
  | [], marks => [passesTo classes [] marks]
  | c :: rest, marks => passesTo classes (c :: rest) marks :: markPasses classes rest marks.tail

/-- The places from which any number of characters of a class leads to a marked one. -/
def markRepeats (allowed : Char → Bool) : Text → List Bool → List Bool
  | [], marks => [marks.headD false]
  | c :: rest, marks =>
    let later := markRepeats allowed rest marks.tail
    (marks.headD false || (allowed c && later.headD false)) :: later

/-- The places from which a pattern may lead to a marked one. -/
def marksFrom : Pattern → Text → List Bool → List Bool
  | .empty, _, marks => marks
  | .chars classes, t, marks => markPasses classes t marks
  | .sequence first second, t, marks => first.marksFrom t (second.marksFrom t marks)
  | .choice first second, t, marks => List.zipWith (· || ·) (first.marksFrom t marks) (second.marksFrom t marks)
  | .repetition _ allowed least _, t, marks =>
    if least = 0 then markRepeats allowed t marks else markPasses [allowed] t (markRepeats allowed t marks)
  | .group _ inner, t, marks => inner.marksFrom t marks
  | .wordBoundary, _, marks => marks
  | .lineStart, _, marks => marks
  | .lineEnd, _, marks => marks

/-- The places where a pattern may begin, the end of the text included. -/
def marks (pattern : Pattern) (t : Text) : List Bool := pattern.marksFrom t ((suffixes t).map fun _ => true)

theorem headD_map_suffixes (goal : Text → Bool) (t : Text) : ((suffixes t).map goal).headD false = goal t := by
  cases t <;> rfl

theorem tail_map_suffixes (goal : Text → Bool) (c : Char) (rest : Text) :
    ((suffixes (c :: rest)).map goal).tail = (suffixes rest).map goal := rfl

/-- Marks tell where classes may be passed to. -/
theorem passesTo_eq (goal : Text → Bool) (classes : List (Char → Bool)) (t : Text) :
    passesTo classes t ((suffixes t).map goal) = mayPass goal classes t := by
  induction classes generalizing t with
  | nil => exact headD_map_suffixes goal t
  | cons allowed classes ih =>
    cases t with
    | nil => rfl
    | cons c rest => simp only [passesTo, mayPass, tail_map_suffixes, ih]

theorem markPasses_eq (goal : Text → Bool) (classes : List (Char → Bool)) (t : Text) :
    markPasses classes t ((suffixes t).map goal) = (suffixes t).map (mayPass goal classes) := by
  induction t with
  | nil => simp only [markPasses, passesTo_eq]; rfl
  | cons c rest ih => simp only [markPasses, passesTo_eq, tail_map_suffixes, ih]; rfl

theorem markRepeats_eq (goal : Text → Bool) (allowed : Char → Bool) (t : Text) :
    markRepeats allowed t ((suffixes t).map goal) = (suffixes t).map (mayRepeat allowed goal) := by
  induction t with
  | nil => rfl
  | cons c rest ih => simp only [markRepeats, headD_map_suffixes, tail_map_suffixes, ih]; rfl

/-- The marks of a pattern tell for every suffix whether the goal may be reached from there. -/
theorem marksFrom_eq_map (pattern : Pattern) (goal : Text → Bool) (t : Text) :
    pattern.marksFrom t ((suffixes t).map goal) = (suffixes t).map (pattern.mayReach goal) := by
  induction pattern generalizing goal with
  | chars classes => exact markPasses_eq goal classes t
  | sequence first second ih1 ih2 =>
    simp only [marksFrom, ih2, ih1]
    rfl
  | choice first second ih1 ih2 =>
    simp only [marksFrom, ih1, ih2, List.zipWith_map, List.zipWith_self]
    rfl
  | repetition lazy allowed least most =>
    simp only [marksFrom, markRepeats_eq, markPasses_eq]
    split <;> rename_i h <;> simp only [mayReach, h, if_true, if_false]
  | group number inner ih => exact ih goal
  | empty => rfl
  | wordBoundary => rfl
  | lineStart => rfl
  | lineEnd => rfl

/-- A place is marked if the pattern may lead from it to any place at all. -/
theorem marks_eq_map (pattern : Pattern) (t : Text) :
    pattern.marks t = (suffixes t).map (pattern.mayReach fun _ => true) :=
  marksFrom_eq_map pattern (fun _ => true) t

theorem headD_marks (pattern : Pattern) (t : Text) :
    (pattern.marks t).headD false = pattern.mayReach (fun _ => true) t := by
  rw [marks_eq_map, headD_map_suffixes]

/-- The marks behind a character are those of the rest. -/
theorem tail_marks (pattern : Pattern) (c : Char) (rest : Text) :
    (pattern.marks (c :: rest)).tail = pattern.marks rest := by
  rw [marks_eq_map, marks_eq_map, tail_map_suffixes]

/-- Without a mark there is no end. -/
theorem ends_eq_nil_of_unmarked {pattern : Pattern} {t : Text} (h : (pattern.marks t).headD false = false) (p : Place) :
    pattern.ends p t = [] := by
  rw [headD_marks] at h
  refine List.eq_nil_iff_forall_not_mem.2 fun (p', t') hmem => ?_
  rw [mayReach_of_mem_ends hmem rfl] at h
  exact absurd h (by decide)

end Stencil.Pattern
