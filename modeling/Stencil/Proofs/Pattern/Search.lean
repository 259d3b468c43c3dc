import Stencil.Proofs.Pattern.Ends
import Stencil.Proofs.Text.Cutting

/-!
# Searching without going back

A search goes back over a choice when what comes behind fails. Where the text was written to fit a pattern nothing
fails: a repetition takes all characters of its class, and the rest of the pattern goes on behind them
(`search_many`). One lemma for each way of building a pattern follows such a search to its end.
-/

namespace Stencil.Pattern

variable {β : Type} {accept : Place → Text → Option β} {p : Place} {t : Text} {result : β}

lemma search_append (first second : Pattern) (accept : Place → Text → Option β) (p : Place) (t : Text) :
    (first ++ second).search accept p t = first.search (fun q s => second.search accept q s) p t := rfl

lemma search_group (number : Nat) (inner : Pattern) (accept : Place → Text → Option β) (p : Place) (t : Text) :
    (Pattern.group number inner).search accept p t =
      inner.search (fun q s => accept (q.remember number t (q.position - p.position)) s) p t := rfl

/-- A class takes one character of it. -/
lemma search_char {allowed : Char → Bool} {c : Char} (hc : allowed c = true) (accept : Place → Text → Option β)
    (p : Place) (t : Text) : (Pattern.char allowed).search accept p (c :: t) = accept (p.next c) t := by
  show (if allowed c then some (p.next c, t) else none).bind (fun e => accept e.1 e.2) = _
  rw [if_pos hc]
  rfl

lemma search_exactly (c : Char) (accept : Place → Text → Option β) (p : Place) (t : Text) :
    (exactly c).search accept p (c :: t) = accept (p.next c) t :=
  search_char BEq.rfl accept p t

/-- A repetition that may take no more characters takes none. -/
lemma searchRepetition_zero (lazy : Bool) (allowed : Char → Bool) (accept : Place → Text → Option β) (p : Place)
    (t : Text) : searchRepetition lazy allowed accept 0 (some 0) p t = accept p t := by
  cases t with
  | nil => rfl
  | cons c rest => cases lazy <;> simp [searchRepetition, attempt]

/-- Behind a repetition that takes what it can the search goes on if it succeeds there. -/
lemma searchRepetition_of_eq_some {allowed : Char → Bool}
    (h : accept (p.after (t.takeWhile allowed)) (t.dropWhile allowed) = some result) :
    searchRepetition false allowed accept 0 none p t = some result := by
  induction t generalizing p with
  | nil => exact h
  | cons c t ih =>
    cases hc : allowed c with
    | true =>
      rw [List.takeWhile_cons_of_pos hc, List.dropWhile_cons_of_pos hc] at h
      simp [searchRepetition, attempt, hc, ih h]
    | false =>
      rw [List.takeWhile_cons_of_neg (by simp [hc]), List.dropWhile_cons_of_neg (by simp [hc])] at h
      have hhere : accept p (c :: t) = some result := h
      simp [searchRepetition, attempt, hc, hhere]

/-- A greedy repetition takes all it can if what follows accepts every place. -/
lemma searchRepetition_of_isSome (haccept : ∀ p t, (accept p t).isSome = true) (allowed : Char → Bool) (p : Place)
    (t : Text) : searchRepetition false allowed accept 0 none p t =
      accept (p.after (t.takeWhile allowed)) (t.dropWhile allowed) := by
  obtain ⟨result, hresult⟩ := Option.isSome_iff_exists.1 (haccept (p.after (t.takeWhile allowed)) (t.dropWhile allowed))
  rw [searchRepetition_of_eq_some hresult, hresult]

/-- What stands behind a word does not continue it. -/
def Stops (allowed : Char → Bool) (behind : Text) : Prop := ∀ c ∈ behind.head?, allowed c = false

lemma stops_cons {allowed : Char → Bool} {c : Char} (hc : allowed c = false) (behind : Text) :
    Stops allowed (c :: behind) := fun d hd => by
  obtain rfl := Option.some.inj hd
  exact hc

/-- A word is taken as a whole if its class stops behind it. -/
lemma takeWhile_append_of_stops {allowed : Char → Bool} {w behind : Text} (hw : ∀ c ∈ w, allowed c = true)
    (hbehind : Stops allowed behind) : (w ++ behind).takeWhile allowed = w := by
  rw [List.takeWhile_append_of_pos hw]
  cases behind with
  | nil => simp
  | cons c rest => rw [List.takeWhile_cons_of_neg (by simp [hbehind c rfl]), List.append_nil]

/-- Behind a word at which its class stops, the rest remains. -/
lemma dropWhile_append_of_stops {allowed : Char → Bool} {w behind : Text} (hw : ∀ c ∈ w, allowed c = true)
    (hbehind : Stops allowed behind) : (w ++ behind).dropWhile allowed = behind := by
  rw [List.dropWhile_append_of_pos hw]
  cases behind with
  | nil => rfl
  | cons c rest => rw [List.dropWhile_cons_of_neg (by simp [hbehind c rfl])]

/-- Any number of characters are all of them that there are. -/
theorem search_many {allowed : Char → Bool} {w behind : Text} (hw : ∀ c ∈ w, allowed c = true)
    (hbehind : Stops allowed behind) (h : accept (p.after w) behind = some result) :
    (many allowed).search accept p (w ++ behind) = some result := by
  refine searchRepetition_of_eq_some ?_
  rwa [takeWhile_append_of_stops hw hbehind, dropWhile_append_of_stops hw hbehind]

/-- Where no character of a class stands, any number of them are none. -/
lemma search_many_nil {allowed : Char → Bool} (ht : Stops allowed t) (h : accept p t = some result) :
    (many allowed).search accept p t = some result :=
  search_many (w := []) (by simp) ht h

/-- A group of any number of characters remembers all of them that there are. -/
lemma search_group_many {number : Nat} {allowed : Char → Bool} {w behind : Text} (hw : ∀ c ∈ w, allowed c = true)
    (hbehind : Stops allowed behind)
    (h : accept ((p.after w).remember number (w ++ behind) w.length) behind = some result) :
    (Pattern.group number (many allowed)).search accept p (w ++ behind) = some result := by
  rw [search_group]
  refine search_many hw hbehind ?_
  rwa [Place.position_after, Nat.add_sub_cancel_left]

/-- At most one character is the one that there is, or none. -/
lemma search_atMostOne {allowed : Char → Bool} {w behind : Text} (hw : ∀ c ∈ w, allowed c = true)
    (hlength : w.length ≤ 1) (hbehind : Stops allowed behind) (h : accept (p.after w) behind = some result) :
    (atMostOne allowed).search accept p (w ++ behind) = some result := by
  show searchRepetition false allowed accept 0 (some 1) p (w ++ behind) = some result
  match w, hlength with
  | [], _ =>
    have hhere : accept p behind = some result := h
    cases behind with
    | nil => exact hhere
    | cons c rest => simp [searchRepetition, attempt, hbehind c rfl, hhere]
  | [c], _ =>
    have hfurther : accept (p.next c) behind = some result := h
    simp [searchRepetition, searchRepetition_zero, attempt, hw c (List.mem_singleton_self c), hfurther]

/-! ## Texts as they stand -/

/-- A text as it stands is passed exactly where it stands. -/
lemma pass?_literal (needle : Text) (p : Place) (t : Text) :
    pass? (needle.map fun c d => d == c) p t = (Text.behind? needle t).map fun rest => (p.after needle, rest) := by
  induction needle generalizing p t with
  | nil => rfl
  | cons c needle ih =>
    cases t with
    | nil => rfl
    | cons d t =>
      rw [List.map_cons, pass?, Text.behind?, ih, Place.after_cons]
      by_cases heq : c = d
      · subst heq
        rw [if_pos BEq.rfl, if_pos rfl]
      · rw [if_neg fun hbeq => heq (eq_of_beq hbeq).symm, if_neg heq]
        rfl

/-- A literal passes the text that it spells. -/
lemma search_literal_append (needle : Text) (accept : Place → Text → Option β) (p : Place) (t : Text) :
    (literal needle).search accept p (needle ++ t) = accept (p.after needle) t := by
  show (pass? (needle.map fun c d => d == c) p (needle ++ t)).bind (fun found => accept found.1 found.2) = _
  rw [pass?_literal, Text.behind?_eq_some_iff.2 rfl]
  rfl

lemma search_literal (needle : Text) (p : Place) (t : Text) :
    (literal needle).search (fun q _ => some q) p t = (Text.behind? needle t).map fun _ => p.after needle := by
  show (pass? (needle.map fun c d => d == c) p t).bind (fun found => some found.1) = _
  rw [pass?_literal]
  cases Text.behind? needle t <;> rfl

/-- A literal ends behind the text that it spells. -/
lemma mem_ends_literal {needle : Text} {p p' : Place} {t t' : Text} :
    (p', t') ∈ (literal needle).ends p t ↔ t = needle ++ t' ∧ p' = p.after needle := by
  show (p', t') ∈ (pass? (needle.map fun c d => d == c) p t).toList ↔ _
  rw [Option.mem_toList, pass?_literal, Option.map_eq_some_iff]
  constructor
  · rintro ⟨rest, hrest, heq⟩
    obtain ⟨rfl, rfl⟩ := Prod.mk.inj heq
    exact ⟨Text.behind?_eq_some_iff.1 hrest, rfl⟩
  · rintro ⟨rfl, rfl⟩
    exact ⟨t', Text.behind?_eq_some_iff.2 rfl, rfl⟩

/-- Any characters up to a needle, as few as possible, end behind its first occurrence. -/
lemma search_anything (needle : Text) (p : Place) (t : Text) :
    (anything ++ literal needle).search (fun q _ => some q) p t =
      (Text.cutAt? needle t).map fun (front, _) => p.after (front ++ needle) := by
  show searchRepetition true (fun _ => true) (fun q s => (literal needle).search (fun q _ => some q) q s) 0 none p t = _
  induction t generalizing p with
  | nil =>
    show (literal needle).search (fun q _ => some q) p [] = _
    rw [search_literal, Text.cutAt?]
    cases needle <;> rfl
  | cons c t ih =>
    show ((literal needle).search (fun q _ => some q) p (c :: t)).orElse
      (fun _ => searchRepetition true (fun _ => true) _ 0 none (p.next c) t) = _
    rw [ih, search_literal, Text.cutAt?]
    cases Text.behind? needle (c :: t) with
    | some behind => rfl
    | none =>
      cases Text.cutAt? needle t <;> rfl

end Stencil.Pattern
