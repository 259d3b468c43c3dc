import Stencil.Budget
import Stencil.Files.Reading
import Stencil.Proofs.Files.Following

/-!
# Files are read whole or not at all

What is right to be answered about the bytes of a file, if a file may have at most so many (`Tree.Answers`): its whole
text, or that it is too long, or that it is no text. Bytes are a text if the text is written in them (`utf8`), however
they are decoded (`Text.ofUtf8?_eq_some_iff`).

Reading asks for one byte more than the limit, and this number is a word. So the answer is right under every limit but
the greatest, under which zero bytes are asked for and every file reads as the empty text (`answers_readText_iff`). A
budget may have this limit (`exists_validate_iff`).
-/

namespace Stencil

/-! ## Texts in bytes -/

namespace Text

lemma ofUtf8?_utf8 (t : Text) : ofUtf8? (utf8 t) = some t := by
  have hbytes : (⟨(utf8 t).toArray⟩ : ByteArray) = List.utf8Encode t := by
    rw [List.utf8Encode, ← List.data_toByteArray]
    rfl
  rw [ofUtf8?, hbytes, List.utf8Decode?_utf8Encode, Option.map_some, List.toList_toArray]

/-- Decoding finds the text that is written in some bytes. -/
theorem ofUtf8?_eq_some_iff {bytes : List UInt8} {t : Text} : ofUtf8? bytes = some t ↔ utf8 t = bytes := by
  constructor
  · intro h
    obtain ⟨chars, hchars, rfl⟩ := Option.map_eq_some_iff.1 h
    obtain ⟨l, hl⟩ := ByteArray.isSome_utf8Decode?_iff.1 (Option.isSome_of_eq_some hchars)
    -- valid bytes are those of some text, and decoding gives it back
    have hbytes : bytes = utf8 l := by
      rw [List.utf8Encode] at hl
      have hdata := congrArg ByteArray.data hl
      rw [List.data_toByteArray] at hdata
      exact List.toArray_inj hdata
    rw [hbytes] at h
    rw [hbytes, ← Option.some.inj ((ofUtf8?_utf8 l).symm.trans h)]
  · rintro rfl
    exact ofUtf8?_utf8 t

lemma ofUtf8?_eq_none_iff {bytes : List UInt8} : ofUtf8? bytes = none ↔ ∀ t, utf8 t ≠ bytes := by
  rw [Option.eq_none_iff_forall_ne_some]
  exact forall_congr' fun t => not_congr ofUtf8?_eq_some_iff

end Text

/-! ## The limits that a budget may have -/

/-- Every number but zero may be the greatest size of a template or of a file. -/
theorem Budget.exists_validate_iff (maxBytes : Nat) :
    (∃ b : Budget, b.validate = .ok () ∧ b.maxContentBytes = maxBytes) ↔ maxBytes ≠ 0 := by
  constructor
  · rintro ⟨b, hvalid, rfl⟩ hzero
    simp [validate, positiveFields, hzero] at hvalid
  · intro hne
    refine ⟨{ ofProfile .basic with maxContentBytes := maxBytes }, ?_, rfl⟩
    simp [validate, positiveFields, hne, ofProfile, mebi, kibi, greatestDepth, greatestWallTime]

/-! ## Reading a file -/

namespace Files.Tree

variable {tree : Tree} {path : Text} {place : Location} {content : List UInt8} {maxBytes : Nat}

/-- The answers that are right for a file with some bytes, if at most so many are let through. -/
inductive Answers (maxBytes : Nat) (content : List UInt8) : Except Fault Text → Prop where
  | whole (t : Text) (fits : content.length ≤ maxBytes) (written : t.utf8 = content) : Answers maxBytes content (.ok t)
  | tooLong (h : maxBytes < content.length) : Answers maxBytes content (.error (.exhausted .size))
  | undecodable (fits : content.length ≤ maxBytes) (h : ∀ t : Text, t.utf8 ≠ content) :
      Answers maxBytes content (.error (.context .undecodableInclusion))

lemma readText_of_file (h : tree.locate path = .ok (place, some (.file content))) (maxBytes : Nat) :
    tree.readText maxBytes path =
      if maxBytes < (content.take (requested maxBytes)).length then .error (.exhausted .size)
      else (Text.ofUtf8? (content.take (requested maxBytes))).elim (.error (.context .undecodableInclusion)) .ok := by
  have hbytes : tree.readBytes path (requested maxBytes) = .ok (content.take (requested maxBytes)) := by
    rw [readBytes, h]
  unfold readText
  rw [hbytes]
  dsimp only
  cases Text.ofUtf8? (content.take (requested maxBytes)) <;> rfl

/-- One byte more than the limit is enough to see whether a file is too long. -/
lemma answers_readText_of_lt (h : tree.locate path = .ok (place, some (.file content)))
    (hword : maxBytes + 1 < Word.size) : Answers maxBytes content (tree.readText maxBytes path) := by
  have hrequested : requested maxBytes = maxBytes + 1 := Nat.mod_eq_of_lt hword
  rw [readText_of_file h, hrequested, List.length_take]
  by_cases hlong : maxBytes < content.length
  · rw [if_pos (by omega)]
    exact .tooLong hlong
  · have hfits : content.length ≤ maxBytes := Nat.le_of_not_lt hlong
    rw [if_neg (by omega), List.take_of_length_le (by omega)]
    cases htext : Text.ofUtf8? content with
    | some t => exact .whole t hfits (Text.ofUtf8?_eq_some_iff.1 htext)
    | none => exact .undecodable hfits (Text.ofUtf8?_eq_none_iff.1 htext)

/-- Under the greatest limit nothing of a file is asked for. -/
lemma readText_of_eq (h : tree.locate path = .ok (place, some (.file content)))
    (hword : maxBytes + 1 = Word.size) : tree.readText maxBytes path = .ok [] := by
  have hrequested : requested maxBytes = 0 := by rw [requested, hword, Nat.mod_self]
  rw [readText_of_file h, hrequested, List.take_zero, List.length_nil, if_neg (Nat.not_lt_zero _)]
  rfl

/-- The answer about a file is right for every limit that a budget may have but the greatest number of a word; under
this one every file reads as the empty text, which is right for an empty file alone. -/
theorem answers_readText_iff (h : tree.locate path = .ok (place, some (.file content)))
    (hword : maxBytes < Word.size) :
    ((∃ b : Budget, b.validate = .ok () ∧ b.maxContentBytes = maxBytes) ↔ maxBytes ≠ 0) ∧
    (Answers maxBytes content (tree.readText maxBytes path) ↔ maxBytes + 1 < Word.size ∨ content = []) ∧
    (maxBytes + 1 = Word.size → tree.readText maxBytes path = .ok []) := by
  refine ⟨Budget.exists_validate_iff maxBytes, ⟨fun hanswer => ?_, ?_⟩, readText_of_eq h⟩
  · by_cases hlt : maxBytes + 1 < Word.size
    · exact .inl hlt
    · rw [readText_of_eq h (by omega)] at hanswer
      cases hanswer with
      | whole t fits written => exact .inr written.symm
  · rintro (hlt | rfl)
    · exact answers_readText_of_lt h hlt
    · by_cases hlt : maxBytes + 1 < Word.size
      · exact answers_readText_of_lt h hlt
      · rw [readText_of_eq h (by omega)]
        exact .whole [] (Nat.zero_le _) rfl

/-- A tree with one file, named `a`. -/
def withFile (content : List UInt8) : Tree where
  entries := [([['a']], .file content)]
  current := []
  proper_current := Location.Proper.nil

/-- Under a limit of one byte, two bytes are refused. -/
theorem answers_readText_withFile :
    (withFile (Text.utf8 ['h', 'i'])).locate ['a'] = .ok ([['a']], some (.file (Text.utf8 ['h', 'i']))) ∧
      1 < Word.size ∧
      Answers 1 (Text.utf8 ['h', 'i']) ((withFile (Text.utf8 ['h', 'i'])).readText 1 ['a']) := by
  refine ⟨rfl, by decide, ?_⟩
  exact (answers_readText_iff rfl (by decide)).2.1.2 (.inl (by decide))

/-- A valid budget with the greatest limit, under which two bytes are read as no text at all. -/
theorem exists_not_answers_readText :
    ∃ b : Budget, b.validate = .ok () ∧ b.maxContentBytes = Word.size - 1 ∧
      (withFile (Text.utf8 ['h', 'i'])).readText b.maxContentBytes ['a'] = .ok [] ∧
      ¬ Answers b.maxContentBytes (Text.utf8 ['h', 'i'])
        ((withFile (Text.utf8 ['h', 'i'])).readText b.maxContentBytes ['a']) := by
  obtain ⟨b, hvalid, hmax⟩ := (Budget.exists_validate_iff (Word.size - 1)).2 (by decide)
  have hempty : (withFile (Text.utf8 ['h', 'i'])).readText b.maxContentBytes ['a'] = .ok [] :=
    readText_of_eq rfl (by rw [hmax]; rfl)
  refine ⟨b, hvalid, hmax, hempty, fun hanswer => ?_⟩
  rw [hempty] at hanswer
  cases hanswer with
  | whole _ _ written => exact absurd written (by decide)

end Files.Tree

end Stencil
