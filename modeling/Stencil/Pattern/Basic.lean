import Stencil.Text.Blank
import Stencil.Text.WordChar

/-!
# Patterns

The shapes of text that the library looks for. A pattern is tried at a place of a text and may end there in several
ways; `ends` lists them in order of preference, the first alternative of a choice in front of the second, the longer
repetition in front of the shorter one or, for a lazy repetition, behind it. `search` finds the first end that
satisfies what comes behind the pattern, without making the list.

Main statements: `search` looks through `ends` in order (`search_eq_findSome?`), and an end lies behind its place
(`reaches_of_mem_ends`).
-/

namespace Stencil

/-- A shape of text. A row of characters gives the class of each; repetition is of single characters, at least and at
most so often; a group remembers the text that it covers under its number; boundaries and the ends of lines take no
text. -/
inductive Pattern where
  | empty
  | chars (classes : List (Char → Bool))
  | sequence (first : Pattern) (second : Pattern)
  | choice (first : Pattern) (second : Pattern)
  | repetition (lazy : Bool) (allowed : Char → Bool) (least : Nat) (most : Option Nat)
  | group (number : Nat) (inner : Pattern)
  | wordBoundary
  | lineStart
  | lineEnd

namespace Pattern

/-! ## Places -/

/-- What a group has remembered: its number, the text from its beginning on, and how many characters of that it
covers. They are cut out only when a match is found, since most ends of a group lead to none. -/
structure Capture where
  number : Nat
  source : Text
  length : Nat

/-- The text that a group covers. -/
def Capture.text (c : Capture) : Text := c.source.take c.length

/-- A place between two characters of a text: how many characters are in front of it, the last of these, and what
groups have remembered on the way. -/
structure Place where
  position : Nat
  previous : Option Char
  captured : List Capture

/-- The place at the beginning of a text. -/
def Place.start : Place := ⟨0, none, []⟩

/-- The place behind the next character. -/
def Place.next (p : Place) (c : Char) : Place := { p with position := p.position + 1, previous := some c }

/-- Whether the character in front of a place and the one behind it are on different sides of a word's edge. -/
def atWordBoundary (p : Place) (rest : Text) : Bool := p.previous.any Text.isWordChar != rest.head?.any Text.isWordChar

/-- Whether a place is at the beginning of a line. -/
def atLineStart (p : Place) : Bool := p.previous.all (· == '\n')

/-- Whether a place is at the end of a line. -/
def atLineEnd (rest : Text) : Bool := rest.head?.all (· == '\n')

/-- The place behind a row of characters, each of its class. -/
def pass? : List (Char → Bool) → Place → Text → Option (Place × Text)
  | [], p, t => some (p, t)
  | _ :: _, _, [] => none
  | allowed :: classes, p, c :: rest => if allowed c then pass? classes (p.next c) rest else none

/-! ## Ends -/

/-- Stopping here in front of going further, or the other way round. -/
def arrange {α : Type} (lazy : Bool) (here further : List α) : List α :=
  if lazy then here ++ further else further ++ here

/-- Where a repetition that starts at a place may end, in order of preference. -/
def repetitionEnds (lazy : Bool) (allowed : Char → Bool) : Nat → Option Nat → Place → Text → List (Place × Text)
  | least, _, p, [] => if least = 0 then [(p, [])] else []
  | least, most, p, c :: rest =>
    -- stopping is allowed once the least number is reached, going on until the greatest is
    arrange lazy (if least = 0 then [(p, c :: rest)] else [])
      (if allowed c && most != some 0 then
        repetitionEnds lazy allowed (least - 1) (most.map (· - 1)) (p.next c) rest
      else [])

/-- Where a pattern tried at a place may end, in order of preference. -/
def ends : Pattern → Place → Text → List (Place × Text)
  | .empty, p, t => [(p, t)]
  | .chars classes, p, t => (pass? classes p t).toList
  | .sequence first second, p, t => (first.ends p t).flatMap fun (p', t') => second.ends p' t'
  | .choice first second, p, t => first.ends p t ++ second.ends p t
  | .repetition lazy allowed least most, p, t => repetitionEnds lazy allowed least most p t
  | .group number inner, p, t =>
    (inner.ends p t).map fun (p', t') =>
      ({ p' with captured := ⟨number, t, p'.position - p.position⟩ :: p'.captured }, t')
  | .wordBoundary, p, t => if atWordBoundary p t then [(p, t)] else []
  | .lineStart, p, t => if atLineStart p then [(p, t)] else []
  | .lineEnd, p, t => if atLineEnd t then [(p, t)] else []

/-! ## Search -/

variable {β : Type}

/-- The success of stopping here, or else of going further, or the other way round. -/
def attempt (lazy : Bool) (here further : Unit → Option β) : Option β :=
  if lazy then (here ()).orElse further else (further ()).orElse here

/-- The first success behind a repetition, tried in order of preference. -/
def searchRepetition (lazy : Bool) (allowed : Char → Bool) (accept : Place → Text → Option β) :
    Nat → Option Nat → Place → Text → Option β
  | least, _, p, [] => if least = 0 then accept p [] else none
  | least, most, p, c :: rest =>
    attempt lazy (fun _ => if least = 0 then accept p (c :: rest) else none)
      (fun _ =>
        if allowed c && most != some 0 then
          searchRepetition lazy allowed accept (least - 1) (most.map (· - 1)) (p.next c) rest
        else none)

/-- The first success behind a pattern tried at a place. -/
def search : Pattern → (Place → Text → Option β) → Place → Text → Option β
  | .empty, accept, p, t => accept p t
  | .chars classes, accept, p, t => (pass? classes p t).bind fun (p', t') => accept p' t'
  | .sequence first second, accept, p, t => first.search (fun p' t' => second.search accept p' t') p t
  | .choice first second, accept, p, t => (first.search accept p t).orElse fun _ => second.search accept p t
  | .repetition lazy allowed least most, accept, p, t => searchRepetition lazy allowed accept least most p t
  | .group number inner, accept, p, t =>
    inner.search (fun p' t' =>
      accept { p' with captured := ⟨number, t, p'.position - p.position⟩ :: p'.captured } t') p t
  | .wordBoundary, accept, p, t => if atWordBoundary p t then accept p t else none
  | .lineStart, accept, p, t => if atLineStart p then accept p t else none
  | .lineEnd, accept, p, t => if atLineEnd t then accept p t else none

/-- An attempt takes the first place that is accepted, in the order that greed or laziness gives. -/
theorem attempt_eq_findSome? {α : Type} (lazy : Bool) (here further : List α) (accept : α → Option β) :
    attempt lazy (fun _ => here.findSome? accept) (fun _ => further.findSome? accept) =
      (arrange lazy here further).findSome? accept := by
  cases lazy <;> simp [attempt, arrange, List.findSome?_append]

/-- A repetition is searched through all of its ends, in their order. -/
theorem searchRepetition_eq_findSome? (lazy : Bool) (allowed : Char → Bool) (accept : Place → Text → Option β)
    (least : Nat) (most : Option Nat) (p : Place) (t : Text) :
    searchRepetition lazy allowed accept least most p t =
      (repetitionEnds lazy allowed least most p t).findSome? fun (p', t') => accept p' t' := by
  induction t generalizing least most p with
  | nil =>
    simp only [searchRepetition, repetitionEnds]
    split <;> simp
  | cons c rest ih =>
    simp only [searchRepetition, repetitionEnds, ← attempt_eq_findSome?, ih]
    congr 1 <;> funext _ <;> split <;> simp

theorem findSome?_flatMap {α γ : Type} (xs : List α) (f : α → List γ) (accept : γ → Option β) :
    (xs.flatMap f).findSome? accept = xs.findSome? fun x => (f x).findSome? accept := by
  induction xs with
  | nil => simp
  | cons x xs ih =>
    rw [List.flatMap_cons, List.findSome?_append, ih, List.findSome?_cons]
    cases (f x).findSome? accept <;> rfl

/-- Searching behind a pattern is looking through its ends in order. -/
theorem search_eq_findSome? (pattern : Pattern) (accept : Place → Text → Option β) (p : Place) (t : Text) :
    pattern.search accept p t = (pattern.ends p t).findSome? fun (p', t') => accept p' t' := by
  induction pattern generalizing accept p t with
  | empty => simp [search, ends]
  | chars classes =>
    simp only [search, ends]
    cases pass? classes p t <;> simp
  | sequence first second ih1 ih2 => simp [search, ends, ih1, ih2, findSome?_flatMap]
  | choice first second ih1 ih2 => simp [search, ends, ih1, ih2, List.findSome?_append]
  | repetition lazy allowed least most => exact searchRepetition_eq_findSome? lazy allowed accept least most p t
  | group number inner ih => simp [search, ends, ih, List.findSome?_map, Function.comp_def]
  | wordBoundary =>
    simp only [search, ends]
    split <;> simp
  | lineStart =>
    simp only [search, ends]
    split <;> simp
  | lineEnd =>
    simp only [search, ends]
    split <;> simp

/-! ## What an end is -/

/-- A place and the text behind it come after another place and text: the characters between were passed. -/
def Reaches (p : Place) (t : Text) (p' : Place) (t' : Text) : Prop :=
  ∃ passed : Text, t = passed ++ t' ∧ p'.position = p.position + passed.length

theorem Reaches.refl (p : Place) (t : Text) : Reaches p t p t := ⟨[], by simp⟩

theorem Reaches.trans {p p' p'' : Place} {t t' t'' : Text} (h : Reaches p t p' t') (h' : Reaches p' t' p'' t'') :
    Reaches p t p'' t'' := by
  obtain ⟨s, rfl, hs⟩ := h
  obtain ⟨s', rfl, hs'⟩ := h'
  exact ⟨s ++ s', by simp, by simp only [List.length_append]; omega⟩

theorem Reaches.next (p : Place) (c : Char) (rest : Text) : Reaches p (c :: rest) (p.next c) rest :=
  ⟨[c], by simp, by simp [Place.next]⟩

/-- Where classes are passed to is reached. -/
theorem reaches_of_pass?_eq_some {classes : List (Char → Bool)} {p p' : Place} {t t' : Text}
    (h : pass? classes p t = some (p', t')) : Reaches p t p' t' := by
  induction classes generalizing p t with
  | nil =>
    simp only [pass?, Option.some.injEq, Prod.mk.injEq] at h
    obtain ⟨rfl, rfl⟩ := h
    exact Reaches.refl ..
  | cons allowed classes ih =>
    cases t with
    | nil => simp [pass?] at h
    | cons c rest =>
      simp only [pass?] at h
      split at h
      · exact (Reaches.next p c rest).trans (ih h)
      · simp at h

theorem mem_arrange {α : Type} {lazy : Bool} {here further : List α} {x : α} :
    x ∈ arrange lazy here further ↔ x ∈ here ∨ x ∈ further := by
  cases lazy <;> simp [arrange, or_comm]

/-- The end of a repetition is reached. -/
theorem reaches_of_mem_repetitionEnds {lazy : Bool} {allowed : Char → Bool} {least : Nat} {most : Option Nat}
    {p p' : Place} {t t' : Text} (h : (p', t') ∈ repetitionEnds lazy allowed least most p t) :
    Reaches p t p' t' := by
  induction t generalizing least most p with
  | nil =>
    simp only [repetitionEnds] at h
    split at h <;> simp_all [Reaches.refl]
  | cons c rest ih =>
    rcases mem_arrange.1 h with h | h <;> split at h
    · simp only [List.mem_singleton, Prod.mk.injEq] at h
      obtain ⟨rfl, rfl⟩ := h
      exact Reaches.refl ..
    · simp at h
    · exact (Reaches.next p c rest).trans (ih h)
    · simp at h

/-- A pattern ends behind the place where it was tried. -/
theorem reaches_of_mem_ends {pattern : Pattern} {p p' : Place} {t t' : Text} (h : (p', t') ∈ pattern.ends p t) :
    Reaches p t p' t' := by
  induction pattern generalizing p t p' t' with
  | empty =>
    simp only [ends, List.mem_singleton, Prod.mk.injEq] at h
    obtain ⟨rfl, rfl⟩ := h
    exact Reaches.refl ..
  | chars classes => exact reaches_of_pass?_eq_some (by simpa [ends] using h)
  | sequence first second ih1 ih2 =>
    obtain ⟨⟨q, s⟩, h1, h2⟩ := List.mem_flatMap.1 h
    exact (ih1 h1).trans (ih2 h2)
  | choice first second ih1 ih2 =>
    rcases List.mem_append.1 h with h | h
    · exact ih1 h
    · exact ih2 h
  | repetition lazy allowed least most => exact reaches_of_mem_repetitionEnds h
  | group number inner ih =>
    obtain ⟨⟨q, s⟩, h1, h2⟩ := List.mem_map.1 h
    simp only [Prod.mk.injEq] at h2
    obtain ⟨rfl, rfl⟩ := h2
    simpa [Reaches] using ih h1
  | wordBoundary =>
    simp only [ends] at h
    split at h <;> simp_all [Reaches.refl]
  | lineStart =>
    simp only [ends] at h
    split at h <;> simp_all [Reaches.refl]
  | lineEnd =>
    simp only [ends] at h
    split at h <;> simp_all [Reaches.refl]

end Pattern

end Stencil
