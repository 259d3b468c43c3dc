/-!
# Texts

A text is a list of characters. This module holds what the rest of the library needs of texts: their length in
bytes of UTF-8, positions counted in bytes, cutting a text at a separator or at the first occurrence of a needle,
and numbers written in digits.

Main statements: the pieces of `Text.split` joined by the separator give the text back (`join_split`), and
`Text.cutAt?` finds a needle exactly where its parts say (`eq_of_cutAt?_eq_some`).
-/

namespace Stencil

/-- A text is the list of its characters, in reading order. -/
abbrev Text := List Char

/-- A string literal stands for the text of its characters. -/
instance coeString : Coe String Text := ⟨String.toList⟩

namespace Text

/-! ## Length in bytes -/

/-- The number of bytes that a text takes in UTF-8. -/
def byteLength : Text → Nat
  | [] => 0
  | c :: rest => c.utf8Size + byteLength rest

@[simp] theorem byteLength_nil : byteLength [] = 0 := rfl

@[simp] theorem byteLength_cons (c : Char) (t : Text) : byteLength (c :: t) = c.utf8Size + byteLength t := rfl

@[simp] theorem byteLength_append (s t : Text) : byteLength (s ++ t) = byteLength s + byteLength t := by
  induction s with
  | nil => simp
  | cons c s ih => simp [ih, Nat.add_assoc]

/-- No character is written in zero bytes, so a text has at least as many bytes as characters. -/
theorem length_le_byteLength (t : Text) : t.length ≤ byteLength t := by
  induction t with
  | nil => simp
  | cons c t ih =>
    have := Char.utf8Size_pos c
    simp only [List.length_cons, byteLength_cons]
    omega

/-- The text in front of a byte position and the text behind it; nothing if the position lies inside a character or
behind the end. -/
def splitAtByte? : Nat → Text → Option (Text × Text)
  | 0, t => some ([], t)
  | _ + 1, [] => none
  | n + 1, c :: rest =>
    if c.utf8Size ≤ n + 1 then (splitAtByte? (n + 1 - c.utf8Size) rest).map fun (front, back) => (c :: front, back)
    else none

/-- A byte position cuts a text into two parts that make it up, the first of as many bytes as the position says. -/
theorem eq_append_of_splitAtByte?_eq_some {n : Nat} {t front back : Text}
    (h : splitAtByte? n t = some (front, back)) : t = front ++ back ∧ byteLength front = n := by
  induction t generalizing n front back with
  | nil =>
    cases n with
    | zero => simp_all [splitAtByte?]
    | succ n => simp [splitAtByte?] at h
  | cons c rest ih =>
    cases n with
    | zero => simp_all [splitAtByte?]
    | succ n =>
      simp only [splitAtByte?] at h
      split at h
      · obtain ⟨⟨front', back'⟩, hcut, hpair⟩ := Option.map_eq_some_iff.1 h
        obtain ⟨rfl, rfl⟩ := Prod.mk.inj hpair
        obtain ⟨hrest, hlen⟩ := ih hcut
        exact ⟨by rw [hrest]; rfl, by simp only [byteLength_cons]; omega⟩
      · simp at h

/-- The piece of a text between two byte positions, if both fall between characters and the first is not behind the
second. -/
def slice? (start stop : Nat) (t : Text) : Option Text :=
  if start ≤ stop then do
    let (_, back) ← splitAtByte? start t
    let (piece, _) ← splitAtByte? (stop - start) back
    return piece
  else none

/-! ## Cutting -/

/-- The pieces of a text between the characters that separate them: one more than there are separators. -/
def split (isSeparator : Char → Bool) : Text → List Text
  | [] => [[]]
  | c :: rest =>
    if isSeparator c then [] :: split isSeparator rest
    else
      match split isSeparator rest with
      | [] => [[c]]
      | piece :: pieces => (c :: piece) :: pieces

/-- A text is split into one piece at least. -/
theorem split_ne_nil (isSeparator : Char → Bool) (t : Text) : split isSeparator t ≠ [] := by
  cases t with
  | nil => simp [split]
  | cons c rest =>
    simp only [split]
    split
    · simp
    · split <;> simp

/-- A piece holds no separator. -/
theorem not_separator_of_mem_split {isSeparator : Char → Bool} {t piece : Text} (h : piece ∈ split isSeparator t) :
    ∀ c ∈ piece, isSeparator c = false := by
  induction t generalizing piece with
  | nil => simp_all [split]
  | cons d rest ih =>
    simp only [split] at h
    split at h
    · rcases List.mem_cons.1 h with rfl | h
      · simp
      · exact ih h
    · rename_i hd
      split at h
      · simp_all
      · rename_i first more hsplit
        rcases List.mem_cons.1 h with rfl | h
        · intro c hc
          rcases List.mem_cons.1 hc with rfl | hc
          · simpa using hd
          · exact ih (hsplit ▸ List.mem_cons_self ..) c hc
        · exact ih (hsplit ▸ List.mem_cons_of_mem _ h)

/-- A text without a separator is one piece. -/
theorem split_of_forall {isSeparator : Char → Bool} {t : Text} (h : ∀ c ∈ t, isSeparator c = false) :
    split isSeparator t = [t] := by
  induction t with
  | nil => rfl
  | cons d t ih =>
    rw [split, h d List.mem_cons_self, ih fun c hc => h c (List.mem_cons_of_mem _ hc)]
    rfl

/-- What stands in front of the first separator is the first piece. -/
theorem split_append_cons {isSeparator : Char → Bool} {s t : Text} {d : Char} (hs : ∀ c ∈ s, isSeparator c = false)
    (hd : isSeparator d = true) : split isSeparator (s ++ d :: t) = s :: split isSeparator t := by
  induction s with
  | nil => rw [List.nil_append, split, if_pos hd]
  | cons c s ih =>
    rw [List.cons_append, split, hs c List.mem_cons_self, ih fun e he => hs e (List.mem_cons_of_mem _ he)]
    rfl

/-- The texts of a list one after the other, with a separator between each two. -/
def join (separator : Text) : List Text → Text
  | [] => []
  | [t] => t
  | t :: rest => t ++ separator ++ join separator rest

/-- Joining the pieces by the character that separates them gives the text back. -/
theorem join_split (c : Char) (t : Text) : join [c] (split (· == c) t) = t := by
  induction t with
  | nil => rfl
  | cons d rest ih =>
    simp only [split]
    have hne := split_ne_nil (· == c) rest
    split
    · rename_i h
      cases hs : split (· == c) rest with
      | nil => exact absurd hs hne
      | cons piece pieces =>
        rw [hs] at ih
        simp [join, ih, eq_of_beq h]
    · cases hs : split (· == c) rest with
      | nil => exact absurd hs hne
      | cons piece pieces =>
        rw [hs] at ih
        cases pieces with
        | nil => simp_all [join]
        | cons next pieces => simp_all [join]

/-- A line without a carriage return at its end. -/
def withoutReturn (line : Text) : Text := if line.getLast? = some '\r' then line.dropLast else line

/-- The lines of a text. The break behind the last line is no line of its own, and a carriage return in front of a break
belongs to the break. -/
def lines (t : Text) : List Text :=
  let pieces := split (· == '\n') t
  pieces.dropLast.map withoutReturn ++ pieces.getLast?.toList.filter (!·.isEmpty)

/-- The text behind a needle, if a text begins with it. -/
def behind? : Text → Text → Option Text
  | [], t => some t
  | _ :: _, [] => none
  | c :: needle, d :: t => if c = d then behind? needle t else none

/-- What is behind a needle follows it in the text. -/
theorem eq_append_of_behind?_eq_some {needle t rest : Text} (h : behind? needle t = some rest) :
    t = needle ++ rest := by
  induction needle generalizing t with
  | nil => simpa [behind?] using h
  | cons c needle ih =>
    cases t with
    | nil => simp [behind?] at h
    | cons d t =>
      simp only [behind?] at h
      split at h
      · rename_i hcd
        rw [ih h, hcd]
        rfl
      · simp at h

/-- The text in front of the first occurrence of a needle and the text behind that occurrence. -/
def cutAt? (needle : Text) : Text → Option (Text × Text)
  | [] => if needle.isEmpty then some ([], []) else none
  | c :: rest =>
    match behind? needle (c :: rest) with
    | some behind => some ([], behind)
    | none => (cutAt? needle rest).map fun (front, behind) => (c :: front, behind)

/-- What is cut off at a needle, put around it, is the text. -/
theorem eq_of_cutAt?_eq_some {needle t front behind : Text} (h : cutAt? needle t = some (front, behind)) :
    t = front ++ needle ++ behind := by
  induction t generalizing front with
  | nil =>
    simp only [cutAt?] at h
    split at h <;> simp_all
  | cons c rest ih =>
    simp only [cutAt?] at h
    split at h
    · rename_i hp
      simp only [Option.some.injEq, Prod.mk.injEq] at h
      obtain ⟨rfl, rfl⟩ := h
      simpa using eq_append_of_behind?_eq_some hp
    · obtain ⟨⟨front', behind'⟩, hcut, hpair⟩ := Option.map_eq_some_iff.1 h
      obtain ⟨rfl, rfl⟩ := Prod.mk.inj hpair
      simp [ih hcut]

/-- The text behind the first occurrence of a needle is shorter than the text, if the needle is not empty. -/
theorem length_lt_of_cutAt?_eq_some {needle t front behind : Text} (hn : needle ≠ [])
    (h : cutAt? needle t = some (front, behind)) : behind.length < t.length := by
  have := List.length_pos_iff.2 hn
  rw [eq_of_cutAt?_eq_some h]
  simp only [List.length_append]
  omega

/-! ## Numbers and letters -/

/-- A natural number in decimal digits. -/
def ofNat (n : Nat) : Text := Nat.toDigits 10 n

/-- An integer in decimal digits, with a minus sign if it is negative. -/
def ofInt (i : Int) : Text := if i < 0 then '-' :: ofNat i.natAbs else ofNat i.natAbs

/-- The number that a list of decimal digits writes, read from the left. -/
def digitsValue (digits : Text) : Nat := digits.foldl (fun n d => n * 10 + (d.toNat - '0'.toNat)) 0

/-- The number that a text of one or more decimal digits writes. -/
def toNat? (t : Text) : Option Nat := if !t.isEmpty && t.all Char.isDigit then some (digitsValue t) else none

/-- The number that a text writes with an optional plus sign and digits. -/
def toNatSigned? : Text → Option Nat
  | '+' :: digits => toNat? digits
  | t => toNat? t

/-- The integer that a text writes with an optional sign and digits. -/
def toInt? : Text → Option Int
  | '-' :: digits => (toNat? digits).map fun n => -(n : Int)
  | t => (toNatSigned? t).map fun n => (n : Int)

/-- A text with the letters `A` to `Z` made small and all other characters kept. -/
def toLower (t : Text) : Text := t.map Char.toLower

/-- The characters of a name behind its first: letters, digits and the underscore, all of ASCII. -/
def isNameChar (c : Char) : Bool := c.isAlphanum || c == '_'

/-- A name starts with a letter or an underscore and goes on with letters, digits and underscores, all of ASCII. -/
def isName : Text → Bool
  | [] => false
  | c :: rest => (c.isAlpha || c == '_') && rest.all isNameChar

end Text

end Stencil
