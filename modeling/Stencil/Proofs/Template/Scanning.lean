import Mathlib.Data.List.Chain
import Stencil.Proofs.Text.Cutting
import Stencil.Template.Token

/-!
# Scanning a template

The pieces of a template, said without the functions that look for them. A scan takes one block after the other: the
opener with the least text in front of it, and from there to the first closer of its kind (`Opens`, `Closes`). It goes
on as long as there is an opener with a closer (`Scan`).

* Cutting a template into pieces is scanning it to a rest without an opener (`Piece.ofSource_eq_ok_iff`), and it is
  refused at the first opener that has no closer (`Piece.ofSource_eq_error_iff`).
* A scan leaves out nothing (`Scan.eq_append`), and in front of each of its blocks stands at most one stretch of text
  (`Scan.isChain`).
-/

namespace Stencil.Template

/-! ## Openers and closers -/

/-- A block is opened behind a front: no opener of any kind has less text in front of it. -/
structure Opens (t front : Text) (kind : BlockKind) (behind : Text) : Prop where
  eq : t = front ++ kind.opener ++ behind
  first : ∀ a k b, t = a ++ BlockKind.opener k ++ b → front.length ≤ a.length

/-- A block goes on to the first closer of its kind. -/
abbrev Closes (kind : BlockKind) (behind body rest : Text) : Prop := Text.CutsFirst kind.closer behind body rest

/-- A text in which no block is opened. -/
def Plain (t : Text) : Prop := ∀ kind, ¬ BlockKind.opener kind <:+: t

namespace BlockKind

lemma opening?_opener_append (kind : BlockKind) (rest : Text) :
    opening? (kind.opener ++ rest) = some (kind, rest) := by
  cases kind <;> rfl

lemma opener_ne_nil (kind : BlockKind) : kind.opener ≠ [] := by cases kind <;> simp [opener]

/-- Nothing is opened if and only if the text starts with no opener. -/
lemma opening?_eq_none_iff {t : Text} : opening? t = none ↔ ∀ kind, ¬ BlockKind.opener kind <+: t := by
  constructor
  · rintro h kind ⟨rest, rfl⟩
    rw [opening?_opener_append] at h
    simp at h
  · intro h
    cases hopen : opening? t with
    | none => rfl
    | some pair => exact absurd ⟨pair.2, (eq_of_opening?_eq_some hopen).symm⟩ (h pair.1)

/-- There is no next block if and only if the text is plain. -/
lemma next?_eq_none_iff {t : Text} : next? t = none ↔ Plain t := by
  induction t with
  | nil =>
    refine ⟨fun _ kind h => kind.opener_ne_nil (List.infix_nil.1 h), fun _ => rfl⟩
  | cons c t ih =>
    have hstep : next? (c :: t) = none ↔ opening? (c :: t) = none ∧ next? t = none := by
      rw [next?]
      cases opening? (c :: t) <;> simp
    rw [hstep, ih, opening?_eq_none_iff]
    simp only [Plain, List.infix_cons_iff, not_or, forall_and]

/-- The next block is opened at the first opener. -/
lemma opens_of_next? {t front behind : Text} {kind : BlockKind} (h : next? t = some (front, kind, behind)) :
    Opens t front kind behind := by
  refine ⟨eq_of_next?_eq_some h, ?_⟩
  induction t generalizing front with
  | nil => simp [next?] at h
  | cons c t ih =>
    intro a k b heq
    rw [next?] at h
    split at h
    · simp only [Option.some.injEq, Prod.mk.injEq] at h
      simp [← h.1]
    · rename_i hnone
      obtain ⟨⟨front', kind', behind'⟩, hnext, hparts⟩ := Option.map_eq_some_iff.1 h
      simp only [Prod.mk.injEq] at hparts
      obtain ⟨rfl, rfl, rfl⟩ := hparts
      cases a with
      | nil => exact absurd ⟨b, by simpa using heq.symm⟩ (opening?_eq_none_iff.1 hnone k)
      | cons d a =>
        rw [List.cons_append, List.cons_append, List.cons.injEq] at heq
        have := ih hnext a k b heq.2
        simp only [List.length_cons]
        omega

end BlockKind

/-- There is only one opener with the least text in front of it. -/
lemma Opens.unique {t front front' behind behind' : Text} {kind kind' : BlockKind} (h : Opens t front kind behind)
    (h' : Opens t front' kind' behind') : front = front' ∧ kind = kind' ∧ behind = behind' := by
  have hlength : front.length = front'.length := Nat.le_antisymm (h.first _ _ _ h'.eq) (h'.first _ _ _ h.eq)
  have heq := h.eq.symm.trans h'.eq
  rw [List.append_assoc, List.append_assoc] at heq
  obtain ⟨rfl, hrest⟩ := List.append_inj heq hlength
  have hopening := congrArg BlockKind.opening? hrest
  rw [BlockKind.opening?_opener_append, BlockKind.opening?_opener_append, Option.some.injEq, Prod.mk.injEq] at hopening
  exact ⟨rfl, hopening⟩

namespace BlockKind

/-- What is found in a text is its first opener. -/
lemma next?_eq_some_iff {t front behind : Text} {kind : BlockKind} :
    next? t = some (front, kind, behind) ↔ Opens t front kind behind := by
  refine ⟨opens_of_next?, fun h => ?_⟩
  cases hnext : next? t with
  | none => exact absurd ⟨front, behind, h.eq.symm⟩ (next?_eq_none_iff.1 hnext kind)
  | some found =>
    obtain ⟨front', kind', behind'⟩ := found
    obtain ⟨rfl, rfl, rfl⟩ := h.unique (opens_of_next? hnext)
    rfl

end BlockKind

/-! ## Scans -/

/-- A text is scanned, block by block, to a rest. -/
inductive Scan : Text → List Piece → Text → Prop
  | here (t : Text) : Scan t [] t
  | block {t front behind body rest last : Text} {kind : BlockKind} {pieces : List Piece}
    (opens : Opens t front kind behind) (closes : Closes kind behind body rest) (later : Scan rest pieces last) :
    Scan t (Piece.ofText front ++ .block kind body :: pieces) last

/-- The pieces of a scan and its rest, one after the other, are the text. -/
theorem Scan.eq_append {t last : Text} {pieces : List Piece} (h : Scan t pieces last) :
    t = pieces.flatMap Piece.source ++ last := by
  induction h with
  | here t => rfl
  | @block t front behind body rest last kind pieces opens closes _ ih =>
    rw [opens.eq, closes.eq]
    conv => lhs; rw [ih]
    simp [Piece.source]

/-- Whether a piece is plain text. -/
def Piece.isText : Piece → Bool
  | .text _ => true
  | .block _ _ => false

/-- Between two blocks of a scan, and behind the last one, stands at most one text. -/
theorem Scan.isChain {t last : Text} {pieces : List Piece} (h : Scan t pieces last) :
    (pieces ++ Piece.ofText last).IsChain fun a b => ¬ (a.isText = true ∧ b.isText = true) := by
  induction h with
  | here t =>
    rw [List.nil_append, Piece.ofText]
    split
    · exact .nil
    · exact .singleton _
  | @block t front behind body rest last kind pieces _ _ _ ih =>
    have hblock : (.block kind body :: (pieces ++ Piece.ofText last)).IsChain
        fun a b => ¬ (a.isText = true ∧ b.isText = true) :=
      ih.cons fun next _ hboth => Bool.noConfusion hboth.1
    rw [List.append_assoc, List.cons_append, Piece.ofText]
    split
    · exact hblock
    · refine hblock.cons fun next hnext hboth => ?_
      obtain rfl : Piece.block kind body = next := by simpa using hnext
      exact Bool.noConfusion hboth.2

namespace Piece

/-- The pieces of a text, step by step. -/
lemma ofSource_eq (line : Nat) (t : Text) :
    ofSource line t =
      match BlockKind.next? t with
      | none => .ok (ofText t)
      | some (front, kind, behind) =>
        match Text.cutAt? kind.closer behind with
        | none => .error (.defect (line + newlines front) (.unterminated kind))
        | some (body, rest) =>
          (ofSource (line + newlines front + newlines (Piece.block kind body).source) rest).map fun later =>
            ofText front ++ .block kind body :: later := by
  rw [ofSource]
  split
  · rename_i hnext
    rw [hnext]
  · rename_i front kind behind hnext
    rw [hnext]
    dsimp only
    split
    · rename_i hcut
      rw [hcut]
    · rename_i body rest hcut
      rw [hcut]
      dsimp only
      cases ofSource (line + newlines front + newlines (Piece.block kind body).source) rest <;> rfl

lemma ofSource_of_plain {line : Nat} {t : Text} (h : Plain t) : ofSource line t = .ok (ofText t) := by
  rw [ofSource_eq, BlockKind.next?_eq_none_iff.2 h]

/-- A block that is never closed is refused at the line of its opener. -/
lemma ofSource_of_unclosed {line : Nat} {t front behind : Text} {kind : BlockKind} (h : Opens t front kind behind)
    (hclose : ¬ kind.closer <:+: behind) :
    ofSource line t = .error (.defect (line + newlines front) (.unterminated kind)) := by
  rw [ofSource_eq, BlockKind.next?_eq_some_iff.2 h]
  dsimp only
  rw [Text.cutAt?_eq_none_iff.2 hclose]

/-- A block that is closed is a piece between the text before and the pieces behind it. -/
lemma ofSource_of_closes {line : Nat} {t front behind body rest : Text} {kind : BlockKind}
    (h : Opens t front kind behind) (hclose : Closes kind behind body rest) :
    ofSource line t =
      (ofSource (line + newlines front + newlines (Piece.block kind body).source) rest).map fun later =>
        ofText front ++ .block kind body :: later := by
  rw [ofSource_eq, BlockKind.next?_eq_some_iff.2 h]
  dsimp only
  rw [Text.cutAt?_eq_some_iff.2 hclose]

@[simp] lemma newlines_append (s t : Text) : newlines (s ++ t) = newlines s + newlines t := List.count_append

/-- Scanning in front of a text changes nothing but the line on which it begins. -/
lemma ofSource_of_scan {line : Nat} {t last : Text} {pieces : List Piece} (h : Scan t pieces last) :
    ofSource line t = (ofSource (line + newlines (pieces.flatMap source)) last).map (pieces ++ ·) := by
  induction h generalizing line with
  | here t =>
    show ofSource line t = (ofSource line t).map ([] ++ ·)
    cases ofSource line t <;> rfl
  | @block t front behind body rest last kind pieces opens closes _ ih =>
    have hline : line + newlines front + newlines (Piece.block kind body).source + newlines (pieces.flatMap source) =
        line + newlines ((ofText front ++ .block kind body :: pieces).flatMap source) := by
      simp only [List.flatMap_append, flatten_ofText, List.flatMap_cons, newlines_append]
      omega
    rw [ofSource_of_closes opens closes, ih, hline]
    cases ofSource (line + newlines ((ofText front ++ .block kind body :: pieces).flatMap source)) last with
    | error e => rfl
    | ok later => simp [Except.map]

/-- Every text can be scanned to a rest that is plain, or that begins with a block that is never closed. -/
lemma exists_scan (t : Text) :
    ∃ pieces last, Scan t pieces last ∧
      (Plain last ∨ ∃ front kind behind, Opens last front kind behind ∧ ¬ kind.closer <:+: behind) := by
  generalize hn : t.length = n
  induction n using Nat.strong_induction_on generalizing t with
  | _ n ih =>
    cases hnext : BlockKind.next? t with
    | none => exact ⟨[], t, .here t, .inl (BlockKind.next?_eq_none_iff.1 hnext)⟩
    | some found =>
      obtain ⟨front, kind, behind⟩ := found
      have hopens := BlockKind.next?_eq_some_iff.1 hnext
      by_cases hclose : kind.closer <:+: behind
      · cases hcut : Text.cutAt? kind.closer behind with
        | none => exact absurd hclose (Text.cutAt?_eq_none_iff.1 hcut)
        | some pair =>
          obtain ⟨body, rest⟩ := pair
          have hcloses := Text.cutAt?_eq_some_iff.1 hcut
          have hshorter := Text.length_lt_of_cutAt?_eq_some kind.closer_ne_nil hcut
          have hlength := congrArg List.length hopens.eq
          simp only [List.length_append] at hlength
          obtain ⟨pieces, last, hscan, hend⟩ := ih rest.length (by omega) rest rfl
          exact ⟨_, last, .block hopens hcloses hscan, hend⟩
      · exact ⟨[], t, .here t, .inr ⟨front, kind, behind, hopens, hclose⟩⟩

/-- The pieces of a text are those of a scan to a rest that is plain, and the rest. -/
theorem ofSource_eq_ok_iff {line : Nat} {t : Text} {pieces : List Piece} :
    ofSource line t = .ok pieces ↔
      ∃ scanned last, Scan t scanned last ∧ Plain last ∧ pieces = scanned ++ ofText last := by
  constructor
  · intro h
    obtain ⟨scanned, last, hscan, hend⟩ := exists_scan t
    rw [ofSource_of_scan hscan] at h
    rcases hend with hplain | ⟨front, kind, behind, hopens, hclose⟩
    · rw [ofSource_of_plain hplain] at h
      exact ⟨scanned, last, hscan, hplain, (Except.ok.inj h).symm⟩
    · rw [ofSource_of_unclosed hopens hclose] at h
      simp [Except.map] at h
  · rintro ⟨scanned, last, hscan, hplain, rfl⟩
    rw [ofSource_of_scan hscan, ofSource_of_plain hplain]
    rfl

/-- A text is refused on the line of the first opener without a closer. -/
theorem ofSource_eq_error_iff {line : Nat} {t : Text} {refusal : Refusal} :
    ofSource line t = .error refusal ↔
      ∃ scanned last front kind behind, Scan t scanned last ∧ Opens last front kind behind ∧
        ¬ kind.closer <:+: behind ∧
        refusal = .defect (line + newlines (scanned.flatMap source ++ front)) (.unterminated kind) := by
  constructor
  · intro h
    obtain ⟨scanned, last, hscan, hend⟩ := exists_scan t
    rw [ofSource_of_scan hscan] at h
    rcases hend with hplain | ⟨front, kind, behind, hopens, hclose⟩
    · rw [ofSource_of_plain hplain] at h
      simp [Except.map] at h
    · rw [ofSource_of_unclosed hopens hclose] at h
      refine ⟨scanned, last, front, kind, behind, hscan, hopens, hclose, ?_⟩
      rw [newlines_append, ← Nat.add_assoc]
      exact (Except.error.inj h).symm
  · rintro ⟨scanned, last, front, kind, behind, hscan, hopens, hclose, rfl⟩
    rw [ofSource_of_scan hscan, ofSource_of_unclosed hopens hclose, newlines_append, ← Nat.add_assoc]
    rfl

end Piece

end Stencil.Template
