import Stencil.Pattern.Matches
import Stencil.Proofs.Pattern.Occurrence
import Stencil.Proofs.Text.Cutting

/-!
# Which matches a text has

What a search over a text finds, said of the text alone. A pattern prefers one of its ends at a place of a text, and so
one of the spans of bytes that begin there (`Prefers`). A search takes the span furthest to the left and goes on behind
it (`Found`).

Main statements: the matches in a text are at the spans that are found (`exists_mem_matchesIn_iff`), from left to right
(`pairwise_matchesIn`). For a pattern that takes at least one character they are the matches at which the text is cut
(`matchesIn_eq_findAll`).
-/

namespace Stencil.Pattern

variable {pattern : Pattern} {t : Text} {start : Nat} {behind : Bool} {span other : Nat × Nat}

/-! ## Spans -/

/-- Of all ends that a pattern has at the first of two byte positions of a text, it prefers one at the second. -/
def Prefers (pattern : Pattern) (t : Text) (span : Nat × Nat) : Prop :=
  ∃ front taken rest p, t = front ++ (taken ++ rest) ∧
    span = (Text.byteLength front, Text.byteLength (front ++ taken)) ∧
    (pattern.ends (Place.start.after front) (taken ++ rest)).head? = some (p, rest)

/-- A span that counts for a search from a byte position on. If a match ends there, a span of no characters at this
position does not. -/
structure Candidate (pattern : Pattern) (t : Text) (start : Nat) (behind : Bool) (span : Nat × Nat) : Prop where
  preferred : pattern.Prefers t span
  start_le : start ≤ span.1
  stops_behind : behind = true → start < span.2

/-- The span that a search from a byte position on comes to first. -/
structure Leftmost (pattern : Pattern) (t : Text) (start : Nat) (behind : Bool) (span : Nat × Nat) : Prop where
  candidate : pattern.Candidate t start behind span
  le_other : ∀ other, pattern.Candidate t start behind other → span.1 ≤ other.1

/-- The spans that a search over a text finds: the leftmost one, and behind each the leftmost one that is left. -/
inductive Found (pattern : Pattern) (t : Text) : Nat × Nat → Prop
  | first {span : Nat × Nat} : pattern.Leftmost t 0 false span → Found pattern t span
  | next {last span : Nat × Nat} : Found pattern t last → pattern.Leftmost t last.2 true span → Found pattern t span

lemma Prefers.start_le_stop (h : pattern.Prefers t span) : span.1 ≤ span.2 := by
  obtain ⟨front, taken, rest, p, -, rfl, -⟩ := h
  rw [Text.byteLength_append]
  exact Nat.le_add_right ..

lemma Prefers.stop_le (h : pattern.Prefers t span) : span.2 ≤ Text.byteLength t := by
  obtain ⟨front, taken, rest, p, rfl, rfl, -⟩ := h
  simp only [Text.byteLength_append]
  omega

/-- Of the spans that begin at one position a pattern prefers one. -/
lemma Prefers.unique (h : pattern.Prefers t span) (h' : pattern.Prefers t other) (hstart : span.1 = other.1) :
    span = other := by
  obtain ⟨front, taken, rest, p, rfl, rfl, hhead⟩ := h
  obtain ⟨front', taken', rest', p', heq, rfl, hhead'⟩ := h'
  -- both begin at the same place, so they are at the first of the same ends
  obtain ⟨rfl, hback⟩ := Text.append_inj_of_byteLength heq hstart
  rw [hback, hhead'] at hhead
  obtain ⟨-, rfl⟩ := Prod.mk.inj (Option.some.inj hhead)
  rw [List.append_cancel_right hback]

/-- Where a pattern prefers a span of no characters, none counts behind a match that ends there. -/
lemma Candidate.start_ne (hspan : pattern.Candidate t start true span) (h : pattern.Prefers t (start, start)) :
    span.1 ≠ start := by
  intro hstart
  have hsame := hspan.preferred.unique h hstart
  exact Nat.lt_irrefl start (by simpa [hsame] using hspan.stops_behind rfl)

lemma not_candidate_at_end : ¬ pattern.Candidate t (Text.byteLength t) true span :=
  fun hspan => Nat.not_le_of_lt (hspan.stops_behind rfl) hspan.preferred.stop_le

/-- There is one leftmost span. -/
lemma Leftmost.unique (h : pattern.Leftmost t start behind span) (h' : pattern.Leftmost t start behind other) :
    span = other :=
  h.candidate.preferred.unique h'.candidate.preferred
    (Nat.le_antisymm (h.le_other _ h'.candidate) (h'.le_other _ h.candidate))

/-! ## The match at a place -/

/-- A match lies in a text: its characters are there behind as many as it says. -/
def Match.Within (m : Match) (t : Text) : Prop := ∃ front rest, t = front ++ m.text ++ rest ∧ m.start = front.length

/-- The byte positions in a text between which a match lies. -/
def Match.bytes (t : Text) (m : Match) : Nat × Nat :=
  (Text.byteLength (t.take m.start), Text.byteLength (t.take m.stop))

/-- The bytes of a match are those of the text before it and with it. -/
lemma Match.bytes_eq {m : Match} {front rest : Text} (ht : t = front ++ m.text ++ rest)
    (hstart : m.start = front.length) :
    m.bytes t = (Text.byteLength front, Text.byteLength (front ++ m.text)) := by
  have hstop : m.stop = (front ++ m.text).length := by rw [Match.stop, hstart, List.length_append]
  rw [Match.bytes, ht, hstop, List.take_left, hstart, List.append_assoc, List.take_left]

/-- Matches at the same bytes are at the same characters. -/
lemma Match.Within.eq_of_bytes_eq {m other : Match} (h : m.Within t) (h' : other.Within t)
    (hbytes : m.bytes t = other.bytes t) : m.start = other.start ∧ m.stop = other.stop := by
  obtain ⟨front, rest, ht, hstart⟩ := h
  obtain ⟨front', rest', ht', hstart'⟩ := h'
  rw [Match.bytes_eq ht hstart, Match.bytes_eq ht' hstart', Prod.mk.injEq] at hbytes
  obtain ⟨hfront, hall⟩ := hbytes
  -- the text is cut behind the two matches at the same place, and then in front of them
  obtain ⟨hwhole, -⟩ := Text.append_inj_of_byteLength (ht.symm.trans ht') hall
  obtain ⟨rfl, htext⟩ := Text.append_inj_of_byteLength hwhole hfront
  exact ⟨hstart.trans hstart'.symm, by rw [Match.stop, Match.stop, hstart, hstart', htext]⟩

/-- The text of a match is what stands between its bytes. -/
lemma Match.Within.slice?_bytes {m : Match} (h : m.Within t) :
    Text.slice? (m.bytes t).1 (m.bytes t).2 t = some m.text := by
  obtain ⟨front, rest, ht, hstart⟩ := h
  rw [Match.bytes_eq ht hstart, ht]
  exact Text.slice?_append front m.text rest

lemma Place.start_after (front : Text) : Place.start.after front = ⟨front.length, front.getLast?, []⟩ := by
  rw [show Place.start = ⟨0, none, []⟩ from rfl, Place.after_eq, Nat.zero_add, Option.or_none]

/-- The preferred match at a place is made of the first of the ends there. -/
lemma preferred?_eq_map (front rest : Text) :
    pattern.preferred? front.length front.getLast? rest =
      (pattern.ends (Place.start.after front) rest).head?.map fun e =>
        ⟨front.length, rest.take (e.1.position - front.length), e.1.captured.map fun c => (c.number, c.text)⟩ := by
  rw [preferred?, search_eq_findSome?, Place.start_after]
  cases pattern.ends ⟨front.length, front.getLast?, []⟩ rest <;> rfl

/-- The preferred match at a place is the span that the pattern prefers there. -/
lemma prefers_of_preferred? {front rest : Text} {m : Match}
    (h : pattern.preferred? front.length front.getLast? rest = some m) :
    ∃ later, rest = m.text ++ later ∧ m.start = front.length ∧
      pattern.Prefers (front ++ rest) (Text.byteLength front, Text.byteLength (front ++ m.text)) := by
  rw [preferred?_eq_map] at h
  obtain ⟨⟨p, later⟩, hhead, rfl⟩ := Option.map_eq_some_iff.1 h
  obtain ⟨taken, rfl, hposition⟩ := reaches_of_mem_ends (List.mem_of_mem_head? hhead)
  have hlength : p.position - front.length = taken.length := by
    rw [hposition, Place.start_after, Nat.add_sub_cancel_left]
  simp only [hlength, List.take_left]
  exact ⟨later, rfl, trivial, front, taken, later, p, rfl, rfl, hhead⟩

/-- Where no match is preferred, no span starts. -/
lemma ne_of_preferred?_eq_none {front rest : Text}
    (h : pattern.preferred? front.length front.getLast? rest = none) (hspan : pattern.Prefers (front ++ rest) span) :
    span.1 ≠ Text.byteLength front := by
  obtain ⟨front', taken, later, p, heq, rfl, hhead⟩ := hspan
  intro hstart
  obtain ⟨rfl, rfl⟩ := Text.append_inj_of_byteLength heq hstart.symm
  rw [preferred?_eq_map, hhead] at h
  exact Option.some_ne_none _ h

/-- A match of one character at least is the preferred one, if that has any characters. -/
lemma matchAt?_eq_filter (pattern : Pattern) (position : Nat) (previous : Option Char) (t : Text) :
    pattern.matchAt? position previous t =
      (pattern.preferred? position previous t).filter fun m => !m.text.isEmpty := by
  rw [matchAt?, preferred?, search_eq_findSome?]
  cases hends : pattern.ends ⟨position, previous, []⟩ t with
  | nil => rfl
  | cons e later =>
    obtain ⟨taken, rfl, hposition⟩ := reaches_of_mem_ends (hends ▸ List.mem_cons_self : (e.1, e.2) ∈ _)
    have hlength : e.1.position - position = taken.length := by rw [hposition, Nat.add_sub_cancel_left]
    simp only [List.findSome?_cons, Option.map_some, Option.filter_some, hlength, List.take_left]
    cases taken <;> simp [hposition]

/-- A match is counted unless it is empty and right behind another one. -/
lemma counted?_eq_filter (pattern : Pattern) (behind : Bool) (position : Nat) (previous : Option Char) (t : Text) :
    pattern.counted? behind position previous t =
      (pattern.preferred? position previous t).filter fun m => !(behind && m.text.isEmpty) := by
  cases behind with
  | false =>
    show pattern.preferred? position previous t = _
    cases pattern.preferred? position previous t <;> rfl
  | true => exact matchAt?_eq_filter pattern position previous t

/-- The match that counts at a place is the leftmost of a search from there. -/
lemma leftmost_of_counted? {front rest : Text} {m : Match}
    (h : pattern.counted? behind front.length front.getLast? rest = some m) :
    ∃ later, rest = m.text ++ later ∧ m.start = front.length ∧
      pattern.Leftmost (front ++ rest) (Text.byteLength front) behind
        (Text.byteLength front, Text.byteLength (front ++ m.text)) := by
  rw [counted?_eq_filter, Option.filter_eq_some_iff] at h
  obtain ⟨hpreferred, hcounts⟩ := h
  obtain ⟨later, hrest, hstart, hspan⟩ := prefers_of_preferred? hpreferred
  refine ⟨later, hrest, hstart, ⟨hspan, Nat.le_refl _, ?_⟩, fun other hother => hother.start_le⟩
  rintro rfl
  have hlength : 0 < m.text.length := List.length_pos_iff.2 (by simpa using hcounts)
  have := Text.length_le_byteLength m.text
  rw [Text.byteLength_append]
  omega

/-- Where no match is counted, no candidate starts. -/
lemma ne_of_counted?_eq_none {front rest : Text}
    (h : pattern.counted? behind front.length front.getLast? rest = none)
    (hspan : pattern.Candidate (front ++ rest) (Text.byteLength front) behind span) :
    span.1 ≠ Text.byteLength front := by
  rw [counted?_eq_filter, Option.filter_eq_none_iff] at h
  cases hpreferred : pattern.preferred? front.length front.getLast? rest with
  | none => exact ne_of_preferred?_eq_none hpreferred hspan.preferred
  | some m =>
    -- the preferred match does not count, so it has no characters
    have hempty := h m hpreferred
    simp only [Bool.not_eq_true, Bool.not_eq_false', Bool.and_eq_true, List.isEmpty_iff] at hempty
    obtain ⟨rfl, htext⟩ := hempty
    obtain ⟨later, -, -, hprefers⟩ := prefers_of_preferred? hpreferred
    rw [htext, List.append_nil] at hprefers
    exact hspan.start_ne hprefers

/-! ## One place after the other -/

/-- The matches that a search from a byte position on lists: the leftmost that counts, and behind it those that a search
from its end on lists. -/
inductive Row (pattern : Pattern) (t : Text) : Nat → Bool → List Match → Prop
  | done {start : Nat} {behind : Bool} (none : ∀ span, ¬ pattern.Candidate t start behind span) :
    Row pattern t start behind []
  | next {start : Nat} {behind : Bool} {m : Match} {ms : List Match} (within : m.Within t)
    (leftmost : pattern.Leftmost t start behind (m.bytes t)) (later : Row pattern t (m.bytes t).2 true ms) :
    Row pattern t start behind (m :: ms)

/-- A row hangs on the candidates alone. -/
lemma Row.of_candidate_iff {start' : Nat} {behind' : Bool} {ms : List Match}
    (h : ∀ span, pattern.Candidate t start behind span ↔ pattern.Candidate t start' behind' span)
    (hrow : pattern.Row t start behind ms) : pattern.Row t start' behind' ms := by
  cases hrow with
  | done none => exact .done fun span hspan => none span ((h span).2 hspan)
  | next within leftmost later =>
    exact .next within
      ⟨(h _).1 leftmost.candidate, fun other hother => leftmost.le_other other ((h other).2 hother)⟩ later

/-- A span that starts behind some text starts at the next character at the earliest. -/
lemma Prefers.le_start {front rest : Text} {c : Char} (h : pattern.Prefers (front ++ c :: rest) span)
    (hstart : Text.byteLength front < span.1) : Text.byteLength (front ++ [c]) ≤ span.1 := by
  obtain ⟨front', taken, later, p, heq, rfl, -⟩ := h
  rcases List.append_eq_append_iff.1 heq with ⟨more, rfl, hmore⟩ | ⟨more, rfl, -⟩
  · cases more with
    | nil => simp at hstart
    | cons d more =>
      obtain ⟨rfl, -⟩ := List.cons.inj hmore
      simp only [Text.byteLength_append, Text.byteLength_cons, Text.byteLength_nil]
      omega
  · -- the span would begin in front of the position
    rw [Text.byteLength_append] at hstart
    omega

/-- Where no span counts a search may go on behind the next character. -/
lemma candidate_next_iff {front rest : Text} {c : Char}
    (h : ∀ span, pattern.Candidate (front ++ c :: rest) (Text.byteLength front) behind span →
      span.1 ≠ Text.byteLength front) :
    pattern.Candidate (front ++ c :: rest) (Text.byteLength (front ++ [c])) false span ↔
      pattern.Candidate (front ++ c :: rest) (Text.byteLength front) behind span := by
  constructor
  · intro hspan
    have hle := hspan.start_le
    have hstop := hspan.preferred.start_le_stop
    have := c.utf8Size_pos
    simp only [Text.byteLength_append, Text.byteLength_cons, Text.byteLength_nil] at hle
    exact ⟨hspan.preferred, by omega, fun _ => by omega⟩
  · intro hspan
    have hlt := Nat.lt_of_le_of_ne hspan.start_le (h span hspan).symm
    exact ⟨hspan.preferred, hspan.preferred.le_start hlt, fun hfalse => Bool.noConfusion hfalse⟩

/-- The characters that belong to a match already are passed over. -/
lemma matchesFrom_append (pattern : Pattern) (behind : Bool) (position : Nat) (previous : Option Char) (w t : Text) :
    matchesFrom pattern w.length behind position previous (w ++ t) =
      matchesFrom pattern 0 behind (position + w.length) (w.getLast?.or previous) t := by
  induction w generalizing position previous with
  | nil => rfl
  | cons c w ih =>
    rw [List.length_cons, List.cons_append, matchesFrom, ih, getLast?_cons_or, Nat.add_right_comm, Nat.add_assoc]

/-- Behind the first character of a match its others are passed over. -/
lemma matchesFrom_behind (pattern : Pattern) (front w later : Text) (c : Char) :
    matchesFrom pattern w.length true (front.length + 1) (some c) (w ++ later) =
      matchesFrom pattern 0 true (front ++ c :: w).length (front ++ c :: w).getLast? later := by
  have hposition : (front ++ c :: w).length = front.length + 1 + w.length := by
    rw [List.length_append, List.length_cons]
    omega
  rw [matchesFrom_append, hposition, List.getLast?_append, getLast?_cons_or]

/-- A match that counts at a place comes first in the row from there. -/
lemma Row.of_counted? {front rest : Text} {m : Match}
    (h : pattern.counted? behind front.length front.getLast? rest = some m) {ms : List Match}
    (hrow : pattern.Row (front ++ rest) (Text.byteLength (front ++ m.text)) true ms) :
    pattern.Row (front ++ rest) (Text.byteLength front) behind (m :: ms) := by
  obtain ⟨later, hrest, hstart, hleftmost⟩ := leftmost_of_counted? h
  have ht : front ++ rest = front ++ m.text ++ later := by rw [hrest, List.append_assoc]
  have hbytes := Match.bytes_eq ht hstart
  exact .next ⟨front, later, ht, hstart⟩ (hbytes ▸ hleftmost) (by rwa [hbytes])

/-- At the end of the text there is at most one more match, an empty one. -/
lemma row_at_end (pattern : Pattern) (t : Text) (behind : Bool) :
    pattern.Row (t ++ []) (Text.byteLength t) behind (pattern.counted? behind t.length t.getLast? []).toList := by
  cases hcounted : pattern.counted? behind t.length t.getLast? [] with
  | none =>
    refine .done fun span hspan => ne_of_counted?_eq_none hcounted hspan (Nat.le_antisymm ?_ hspan.start_le)
    have hstop := hspan.preferred.stop_le
    rw [List.append_nil] at hstop
    exact Nat.le_trans hspan.preferred.start_le_stop hstop
  | some m =>
    obtain ⟨later, hrest, -⟩ := leftmost_of_counted? hcounted
    obtain ⟨htext, -⟩ := List.append_eq_nil_iff.1 hrest.symm
    exact .of_counted? hcounted (.done fun span => by rw [htext]; exact not_candidate_at_end)

/-- What a search from a place on lists is the row from there. -/
lemma row_matchesFrom (pattern : Pattern) (front rest : Text) (behind : Bool) :
    pattern.Row (front ++ rest) (Text.byteLength front) behind
      (matchesFrom pattern 0 behind front.length front.getLast? rest) := by
  -- on the length of what is left, since all of a match is passed over at once
  generalize hn : rest.length = n
  induction n using Nat.strong_induction_on generalizing front rest behind with
  | _ n ih =>
    cases rest with
    | nil => exact row_at_end pattern front behind
    | cons c rest =>
      have hnext : pattern.Row (front ++ c :: rest) (Text.byteLength (front ++ [c])) false
          (matchesFrom pattern 0 false (front.length + 1) (some c) rest) := by
        have := ih rest.length (by rw [← hn]; exact Nat.lt_succ_self _) (front ++ [c]) rest false rfl
        rwa [List.append_assoc, List.length_append, List.getLast?_concat] at this
      rw [matchesFrom]
      cases hcounted : pattern.counted? behind front.length front.getLast? (c :: rest) with
      | none => exact hnext.of_candidate_iff fun span => candidate_next_iff fun _ => ne_of_counted?_eq_none hcounted
      | some m =>
        obtain ⟨later, hrest, -, hleftmost⟩ := leftmost_of_counted? hcounted
        refine .of_counted? hcounted ?_
        cases htext : m.text with
        | nil =>
          -- nothing else counts at this place, so the search goes on behind the next character
          rw [htext, List.append_nil] at hleftmost
          rw [List.append_nil]
          exact hnext.of_candidate_iff fun span => candidate_next_iff fun _ hspan =>
            hspan.start_ne hleftmost.candidate.preferred
        | cons d w =>
          rw [htext, List.cons_append] at hrest
          obtain ⟨rfl, rfl⟩ := List.cons.inj hrest
          have hshorter : later.length < n := by
            rw [← hn, List.length_cons, List.length_append]
            omega
          have hrow := ih later.length hshorter (front ++ c :: w) later true rfl
          rw [← matchesFrom_behind, List.append_assoc] at hrow
          exact hrow

/-- The matches in a text are those that a search from its beginning lists. -/
lemma row_matchesIn (pattern : Pattern) (t : Text) : pattern.Row t 0 false (pattern.matchesIn t) := by
  rw [matchesIn_eq]
  exact row_matchesFrom pattern [] t false

/-! ## All matches -/

/-- Every match of a row is a candidate. -/
lemma Row.candidate {ms : List Match} (h : pattern.Row t start behind ms) {m : Match} (hm : m ∈ ms) :
    pattern.Candidate t start behind (m.bytes t) := by
  induction h with
  | done => exact absurd hm List.not_mem_nil
  | next _ leftmost _ ih =>
    rcases List.mem_cons.1 hm with rfl | hm
    · exact leftmost.candidate
    · -- a later one counts behind the first, which begins no further to the left than the search
      have hlater := ih hm
      have hstop := leftmost.candidate.preferred.start_le_stop
      have hstart := leftmost.candidate.start_le
      have hle := hlater.start_le
      exact ⟨hlater.preferred, by omega, fun _ => Nat.lt_of_le_of_lt (by omega) (hlater.stops_behind rfl)⟩

/-- Every match of a row is cut from the text. -/
lemma Row.within {ms : List Match} (h : pattern.Row t start behind ms) {m : Match} (hm : m ∈ ms) : m.Within t := by
  induction h with
  | done => exact absurd hm List.not_mem_nil
  | next within _ _ ih =>
    rcases List.mem_cons.1 hm with rfl | hm
    · exact within
    · exact ih hm

/-- Each match begins further to the right than the one before. -/
lemma Row.pairwise {ms : List Match} (h : pattern.Row t start behind ms) :
    ms.Pairwise fun m later => (m.bytes t).1 < (later.bytes t).1 := by
  induction h with
  | done => exact .nil
  | next _ leftmost later ih =>
    refine .cons (fun m hm => ?_) ih
    have hlater := later.candidate hm
    refine Nat.lt_of_le_of_ne (Nat.le_trans leftmost.candidate.preferred.start_le_stop hlater.start_le) fun hsame => ?_
    -- at one position a pattern prefers one span, and this one stops further to the right
    have hspan := leftmost.candidate.preferred.unique hlater.preferred hsame
    exact absurd (hlater.stops_behind rfl) (by rw [hspan]; exact Nat.lt_irrefl _)

/-- What a search that is leftmost finds is the first of the list. -/
lemma Row.exists_mem_of_leftmost {ms : List Match} (h : pattern.Row t start behind ms)
    (hspan : pattern.Leftmost t start behind span) : ∃ m ∈ ms, m.bytes t = span := by
  cases h with
  | done none => exact absurd hspan.candidate (none span)
  | next _ leftmost _ => exact ⟨_, List.mem_cons_self, leftmost.unique hspan⟩

/-- Behind each match the list goes on with those of a search from its end on. -/
lemma Row.exists_behind {ms : List Match} (h : pattern.Row t start behind ms) {m : Match} (hm : m ∈ ms) :
    ∃ later, later ⊆ ms ∧ pattern.Row t (m.bytes t).2 true later := by
  induction h with
  | done => exact absurd hm List.not_mem_nil
  | next _ _ later ih =>
    rcases List.mem_cons.1 hm with rfl | hm
    · exact ⟨_, List.subset_cons_self .., later⟩
    · obtain ⟨further, hsubset, hrow⟩ := ih hm
      exact ⟨further, List.subset_cons_of_subset _ hsubset, hrow⟩

/-- Every match of a row is found by the scan. -/
lemma Row.found {ms : List Match} (h : pattern.Row t start behind ms)
    (hstart : ∀ span, pattern.Leftmost t start behind span → pattern.Found t span) {m : Match} (hm : m ∈ ms) :
    pattern.Found t (m.bytes t) := by
  induction h with
  | done => exact absurd hm List.not_mem_nil
  | next _ leftmost _ ih =>
    have hfound := hstart _ leftmost
    rcases List.mem_cons.1 hm with rfl | hm
    · exact hfound
    · exact ih (fun span hspan => .next hfound hspan) hm

/-- The matches in a text are at the spans that are found in it. -/
theorem exists_mem_matchesIn_iff : (∃ m ∈ pattern.matchesIn t, m.bytes t = span) ↔ pattern.Found t span := by
  have hrow := row_matchesIn pattern t
  constructor
  · rintro ⟨m, hm, rfl⟩
    exact hrow.found (fun span => .first) hm
  · intro h
    induction h with
    | first hspan => exact hrow.exists_mem_of_leftmost hspan
    | next _ hspan ih =>
      -- the row goes on behind the match at the last span with what is found next
      obtain ⟨m, hm, rfl⟩ := ih
      obtain ⟨later, hsubset, hlater⟩ := hrow.exists_behind hm
      obtain ⟨next, hnext, hbytes⟩ := hlater.exists_mem_of_leftmost hspan
      exact ⟨next, hsubset hnext, hbytes⟩

lemma within_of_mem_matchesIn {m : Match} (h : m ∈ pattern.matchesIn t) : m.Within t :=
  (row_matchesIn pattern t).within h

/-- The matches in a text stand from left to right. -/
theorem pairwise_matchesIn (pattern : Pattern) (t : Text) :
    (pattern.matchesIn t).Pairwise fun m later => (m.bytes t).1 < (later.bytes t).1 :=
  (row_matchesIn pattern t).pairwise

/-! ## Patterns that take a character -/

lemma matchAt?_nil (pattern : Pattern) (position : Nat) (previous : Option Char) :
    pattern.matchAt? position previous [] = none := by
  rw [matchAt?_eq_filter, preferred?]
  cases pattern.search (fun p _ => some p) ⟨position, previous, []⟩ [] <;> simp

/-- A pattern without empty matches counts all of its matches. -/
lemma counted?_eq_matchAt? (hleast : 0 < pattern.least) (behind : Bool) (position : Nat) (previous : Option Char)
    (t : Text) : pattern.counted? behind position previous t = pattern.matchAt? position previous t := by
  cases behind with
  | true => rfl
  | false =>
    show pattern.preferred? position previous t = _
    rw [matchAt?, preferred?, search_eq_findSome?]
    cases hends : pattern.ends ⟨position, previous, []⟩ t with
    | nil => rfl
    | cons e later =>
      -- no end is at the place where the pattern is tried
      have hposition : position + pattern.least ≤ e.1.position :=
        position_add_least_le (hends ▸ List.mem_cons_self : (e.1, e.2) ∈ _)
      simp only [List.findSome?_cons, Option.map_some]
      rw [if_neg (by omega)]

/-- A pattern without empty matches has as its matches the parts that matched. -/
lemma matchesFrom_eq_filterMap (hleast : 0 < pattern.least) (skip : Nat) (behind : Bool) (position : Nat)
    (previous : Option Char) (t : Text) :
    matchesFrom pattern skip behind position previous t =
      (partsFrom pattern skip position previous t).filterMap Part.match? := by
  induction t generalizing skip behind position previous with
  | nil => rw [matchesFrom, counted?_eq_matchAt? hleast, matchAt?_nil, partsFrom]; rfl
  | cons c rest ih =>
    cases skip with
    | succ skip => rw [matchesFrom, partsFrom, ih]
    | zero =>
      rw [matchesFrom, partsFrom, counted?_eq_matchAt? hleast]
      cases pattern.matchAt? position previous (c :: rest) with
      | none => exact (ih ..).trans (filterMap_consPlain ..).symm
      | some m => exact congrArg (m :: ·) (ih ..)

/-- The matches of a pattern that takes a character are those at which a text is cut. -/
theorem matchesIn_eq_findAll (hleast : 0 < pattern.least) (t : Text) : pattern.matchesIn t = pattern.findAll t := by
  rw [matchesIn_eq, findAll, parts_eq]
  exact matchesFrom_eq_filterMap hleast 0 false 0 none t

lemma firstIn?_eq_find? (hleast : 0 < pattern.least) (t : Text) : pattern.firstIn? t = pattern.find? t := by
  rw [firstIn?_eq_head?, matchesIn_eq_findAll hleast, find?_eq_head?_findAll]

end Stencil.Pattern
