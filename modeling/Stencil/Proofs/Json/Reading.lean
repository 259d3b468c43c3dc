import Mathlib.Algebra.GroupWithZero.Nat
import Mathlib.Data.List.TakeWhile
import Stencil.Json.Document
import Stencil.Proofs.Json.Parts
import Stencil.Proofs.Table.Ascending

/-!
# Reading what was written

A value without doubles is read from its own writing. Strings are followed character by character, each of which is
written as one piece (`exists_readPieces_escapeChar`), integers digit by digit. The text of a value is one row of tokens
wherever it stands (`Writes`), and these take a reading from where a value has to come to where it has been put in, so
the arrays and objects around it need not be known.

Main statements: the document of a value is read from its text (`read?_compact`), and if its objects are in ascending
order it stands for the value (`toValue?_ofValue`).
-/

namespace Stencil.Json

/-! ## Strings -/

/-- Whether a piece of a string stands for a character. -/
def Piece.Spells (piece : Piece) (c : Char) : Prop :=
  ∀ more, textOfPieces? (piece :: more) = (textOfPieces? more).map (c :: ·)

/-- A character that is neither a quote nor a backslash nor a control character stands for itself. -/
lemma readPieces_plain {c : Char} (hquote : c ≠ '"') (hback : c ≠ '\\') (hcontrol : ¬ c.toNat < 0x20) (rest : Text) :
    readPieces (c :: rest) = (readPieces rest).map fun read => (.char c :: read.1, read.2) := by
  rw [readPieces]
  · rw [if_neg hcontrol]
    cases readPieces rest <;> rfl
  all_goals simp_all

/-- A backslash and a letter of the escapes stand for one character. -/
lemma readPieces_letter {letter c : Char} (hletter : escaped? letter = some c) (rest : Text) :
    readPieces ('\\' :: letter :: rest) = (readPieces rest).map fun read => (.char c :: read.1, read.2) := by
  rw [readPieces, hletter]
  · cases readPieces rest <;> rfl
  · rintro a b c d more rfl
    simp [escaped?] at hletter

/-- A backslash, a `u` and four hexadecimal digits are one unit of sixteen bits. -/
lemma readPieces_unit {a b c d : Char} {bits : Nat} (hbits : hexUnit? a b c d = some bits) (rest : Text) :
    readPieces ('\\' :: 'u' :: a :: b :: c :: d :: rest) =
      (readPieces rest).map fun read => (.unit bits :: read.1, read.2) := by
  rw [readPieces, hbits]
  cases readPieces rest <;> rfl

/-- A unit below the surrogates spells the character with its number. -/
lemma spells_unit {bits : Nat} (h : bits < 0xd800) : Piece.Spells (.unit bits) (Char.ofNat bits) := by
  intro more
  have hlow : ¬ (0xdc00 ≤ bits ∧ bits < 0xe000) := by omega
  have hhigh : ¬ (0xd800 ≤ bits ∧ bits < 0xdc00) := by omega
  cases more with
  | nil => simp [textOfPieces?, hlow, hhigh]
  | cons next more => cases next <;> simp [textOfPieces?, hlow, hhigh]

/-- Controls are written with four hexadecimal digits, of which the first two are zeros. -/
lemma hexDigits_control : ∀ n < 0x20,
    (if n < 0x10 then ['0'] else []) ++ Nat.toDigits 16 n = [Nat.digitChar (n / 16), Nat.digitChar (n % 16)] ∧
      hexUnit? '0' '0' (Nat.digitChar (n / 16)) (Nat.digitChar (n % 16)) = some n := by
  decide

/-- A character of a string is written as one piece, whatever stands behind it. -/
theorem exists_readPieces_escapeChar (c : Char) (rest : Text) :
    ∃ piece, Piece.Spells piece c ∧ readPieces (escapeChar c ++ rest) =
      (readPieces rest).map fun read => (piece :: read.1, read.2) := by
  have hchar : ∀ c, Piece.Spells (.char c) c := fun _ _ => rfl
  unfold escapeChar
  split
  iterate 7 exact ⟨_, hchar _, readPieces_letter rfl rest⟩
  rename_i h1 h2 h3 h4 h5 h6 h7
  split
  · rename_i hcontrol
    refine ⟨.unit c.toNat, ?_, ?_⟩
    · have hspells : Piece.Spells (.unit c.toNat) (Char.ofNat c.toNat) := spells_unit (by omega)
      rwa [Char.ofNat_toNat] at hspells
    · obtain ⟨hdigits, hbits⟩ := hexDigits_control c.toNat hcontrol
      rw [List.append_assoc ['\\', 'u', '0', '0'], hdigits]
      exact readPieces_unit hbits rest
  · exact ⟨_, hchar c, readPieces_plain h1 h2 ‹_› rest⟩

/-- The inside of a written string is read up to its closing quote, and its pieces spell the string. -/
lemma exists_readPieces_stringText (t rest : Text) :
    ∃ pieces, readPieces (t.flatMap escapeChar ++ '"' :: rest) = some (pieces, rest) ∧
      textOfPieces? pieces = some t := by
  induction t with
  | nil => exact ⟨[], rfl, rfl⟩
  | cons c t ih =>
    obtain ⟨pieces, hread, htext⟩ := ih
    obtain ⟨piece, hspells, hpiece⟩ := exists_readPieces_escapeChar c (t.flatMap escapeChar ++ '"' :: rest)
    refine ⟨piece :: pieces, ?_, ?_⟩
    · rw [List.flatMap_cons, List.append_assoc, hpiece, hread]
      rfl
    · rw [hspells, htext]
      rfl

/-! ## Tokens -/

/-- A written string is one token, whatever follows it. -/
lemma tokens?_stringText (t rest : Text) :
    tokens? (stringText t ++ rest) = (tokens? rest).map (.string (some t) :: ·) := by
  obtain ⟨pieces, hread, htext⟩ := exists_readPieces_stringText t rest
  have hsource : stringText t ++ rest = '"' :: (t.flatMap escapeChar ++ '"' :: rest) := by simp [stringText]
  rw [hsource, tokens?, if_neg (by decide), if_pos (by decide)]
  split
  · rename_i h
    rw [hread] at h
    simp at h
  · rename_i pieces' behind h
    obtain ⟨rfl, rfl⟩ := Prod.mk.inj (Option.some.inj (hread.symm.trans h))
    rw [htext]

/-- A mark is a token of its own. -/
lemma tokens?_mark {c : Char} {mark : Token} (hmark : mark? c = some mark) (rest : Text) :
    tokens? (c :: rest) = (tokens? rest).map (mark :: ·) := by
  have hc : isSpace c = false ∧ (c == '"') = false := by
    unfold mark? at hmark
    split at hmark <;> first | decide | simp at hmark
  rw [tokens?, hc.1, hc.2, if_neg Bool.false_ne_true, if_neg Bool.false_ne_true, hmark]

/-- A character of a scalar neither is blank nor opens a string nor is a mark. -/
lemma other_of_isScalarChar {c : Char} (h : isScalarChar c = true) :
    isSpace c = false ∧ (c == '"') = false ∧ mark? c = none := by
  refine ⟨?_, ?_, ?_⟩
  · by_contra hspace
    simp only [isSpace, Bool.not_eq_false, Bool.or_eq_true, beq_iff_eq] at hspace
    rcases hspace with ((rfl | rfl) | rfl) | rfl <;> exact absurd h (by decide)
  · rw [beq_eq_false_iff_ne]
    rintro rfl
    exact absurd h (by decide)
  · unfold mark?
    split <;> first | rfl | exact absurd h (by decide)

/-- A scalar ends where another character comes. -/
def Stops (rest : Text) : Prop := ∀ c more, rest = c :: more → isScalarChar c = false

/-- A scalar is one token if no further character of a scalar follows. -/
lemma tokens?_scalar {word rest : Text} {document : Document} (hword : ∀ c ∈ word, isScalarChar c = true)
    (hscalar : scalar? word = some document) (hrest : Stops rest) :
    tokens? (word ++ rest) = (tokens? rest).map (.scalar document :: ·) := by
  have hbehind : rest.takeWhile isScalarChar = [] ∧ rest.dropWhile isScalarChar = rest := by
    cases rest with
    | nil => exact ⟨rfl, rfl⟩
    | cons c more => simp [hrest c more rfl]
  cases word with
  | nil => simp [scalar?, Numeral.read?] at hscalar
  | cons c word =>
    obtain ⟨hc, hword⟩ := List.forall_mem_cons.1 hword
    obtain ⟨hspace, hquote, hmark⟩ := other_of_isScalarChar hc
    have htake : (word ++ rest).takeWhile isScalarChar = word := by
      rw [List.takeWhile_append_of_pos hword, hbehind.1, List.append_nil]
    have hdrop : (word ++ rest).dropWhile isScalarChar = rest := by
      rw [List.dropWhile_append_of_pos hword, hbehind.2]
    rw [List.cons_append, tokens?, hspace, hquote, if_neg Bool.false_ne_true, if_neg Bool.false_ne_true, hmark]
    simp only [htake, hdrop, hscalar]

/-! ## Integers -/

/-- Reading on never makes a number smaller. -/
lemma foldl_digits_ge (digits : Text) (n : Nat) :
    n ≤ digits.foldl (fun n d => n * 10 + (d.toNat - '0'.toNat)) n := by
  induction digits generalizing n with
  | nil => exact Nat.le_refl n
  | cons d digits ih =>
    have := ih (n * 10 + (d.toNat - '0'.toNat))
    rw [List.foldl_cons]
    omega

/-- As long as the number fits into a word, all digits are read into it. -/
lemma absorb_eq {digits : Text} {n : Nat}
    (h : digits.foldl (fun n d => n * 10 + (d.toNat - '0'.toNat)) n < Word.size) :
    Numeral.absorb n digits = (digits.foldl (fun n d => n * 10 + (d.toNat - '0'.toNat)) n, []) := by
  induction digits generalizing n with
  | nil => rfl
  | cons d digits ih =>
    rw [List.foldl_cons] at h ⊢
    have hnext := Nat.lt_of_le_of_lt (foldl_digits_ge digits _) h
    rw [Numeral.absorb, if_pos hnext, ih h]

/-- A number is what its digits write. -/
lemma digitsValue_ofNat (n : Nat) : Text.digitsValue (Text.ofNat n) = n := by
  have h := Nat.ofDigitChars_ten_toDigits (n := n)
  unfold Nat.ofDigitChars at h
  simp only [Nat.mul_comm 10] at h
  exact h

/-- There is no needless zero in front. -/
lemma eq_zero_of_head?_ofNat {n : Nat} (h : (Text.ofNat n).head? = some '0') : n = 0 := by
  induction n using Nat.strongRecOn with
  | ind n ih =>
    unfold Text.ofNat at h ih
    rw [Nat.toDigits_eq_if (by decide)] at h
    split at h
    · rename_i hsmall
      have hall : ∀ n < 10, Nat.digitChar n = '0' → n = 0 := by decide
      exact hall n hsmall (Option.some.inj h)
    · obtain ⟨d, more, hmore⟩ := List.exists_cons_of_ne_nil (Nat.toDigits_ne_nil (n := n / 10) (b := 10))
      rw [hmore, List.cons_append, List.head?_cons, ← List.head?_cons (l := more), ← hmore] at h
      have := ih (n / 10) (by omega) h
      omega

lemma isDigit_of_mem_ofNat {n : Nat} {c : Char} (h : c ∈ Text.ofNat n) : c.isDigit = true :=
  Nat.isDigit_of_mem_toDigits (by decide) (by decide) h

/-- Digits with or without a sign are read as a whole number, without fraction and exponent. -/
lemma read?_signed (negative : Bool) (n : Nat) :
    Numeral.read? ((if negative then ['-'] else []) ++ Text.ofNat n) = some ⟨negative, Text.ofNat n, none, none⟩ := by
  have htake : (Text.ofNat n).takeWhile Char.isDigit = Text.ofNat n :=
    List.takeWhile_eq_self_iff.2 fun c hc => isDigit_of_mem_ofNat hc
  have hdrop : (Text.ofNat n).dropWhile Char.isDigit = [] :=
    List.dropWhile_eq_nil_iff.2 fun c hc => isDigit_of_mem_ofNat hc
  have hempty : (Text.ofNat n).isEmpty = false := List.isEmpty_eq_false_iff.2 Nat.toDigits_ne_nil
  -- a leading zero is refused unless it is the only digit
  have hzero : ((Text.ofNat n).head? == some '0' && (Text.ofNat n).length != 1) = false := by
    cases hhead : (Text.ofNat n).head? == some '0' with
    | false => rfl
    | true =>
      obtain rfl := eq_zero_of_head?_ofNat (eq_of_beq hhead)
      rfl
  cases negative with
  | true =>
    show Numeral.read? ('-' :: Text.ofNat n) = _
    simp only [Numeral.read?, htake, hdrop, hempty, hzero]
    rfl
  | false =>
    have hsign : ∀ rest, Text.ofNat n ≠ '-' :: rest := fun rest h =>
      absurd (isDigit_of_mem_ofNat (n := n) (c := '-') (h ▸ List.mem_cons_self)) (by decide)
    show Numeral.read? (Text.ofNat n) = _
    unfold Numeral.read?
    split
    · rename_i negative digits heq
      split at heq
      · exact absurd ‹_› (hsign _)
      · obtain ⟨rfl, rfl⟩ := Prod.mk.inj heq
        simp only [htake, hdrop, hempty, hzero]
        rfl

/-- An integer that sixty-four bits hold, with or without a sign. -/
def FitsWord (i : Int) : Prop := -(Word.negatives : Int) ≤ i ∧ i < Word.size

lemma absorb_ofNat {n : Nat} (h : n < Word.size) : Numeral.absorb 0 (Text.ofNat n) = (n, []) := by
  have hvalue := digitsValue_ofNat n
  rw [Text.digitsValue] at hvalue
  rw [absorb_eq (hvalue.symm ▸ h), hvalue]

/-- The sign and the digits of an integer that fits have this integer as their value. -/
lemma value?_ofInt {i : Int} (h : FitsWord i) :
    Numeral.value? ⟨decide (i < 0), Text.ofNat i.natAbs, none, none⟩ = some (.int i) := by
  obtain ⟨hleast, hmost⟩ := h
  have hgap : Word.negatives < Word.size := by decide
  have habsorb : Numeral.absorb 0 (Text.ofNat i.natAbs) = (i.natAbs, []) := absorb_ofNat (by omega)
  simp only [Numeral.value?, habsorb, decide_eq_true_eq]
  split
  · rw [if_pos ⟨by omega, by omega⟩]
    congr 2
    omega
  · congr 2
    omega

lemma ofInt_eq (i : Int) : Text.ofInt i = (if decide (i < 0) then ['-'] else []) ++ Text.ofNat i.natAbs := by
  rw [Text.ofInt]
  by_cases h : i < 0 <;> simp [h]

/-- An integer is written in digits, with a minus sign in front or not. -/
lemma mem_ofInt {i : Int} {c : Char} (h : c ∈ Text.ofInt i) : c = '-' ∨ c.isDigit = true := by
  rw [ofInt_eq, List.mem_append] at h
  rcases h with h | h
  · split at h
    · exact .inl (List.mem_singleton.1 h)
    · exact absurd h List.not_mem_nil
  · exact .inr (isDigit_of_mem_ofNat h)

/-- An integer is read from its digits. -/
lemma scalar?_ofInt {i : Int} (h : FitsWord i) : scalar? (Text.ofInt i) = some (.number (some (.int i))) := by
  have hname : ∀ c (name : Text), c ∈ name → c ≠ '-' → c.isDigit = false → Text.ofInt i ≠ name := by
    rintro c _ hc hminus hdigit rfl
    rcases mem_ofInt hc with hc | hc
    · exact hminus hc
    · rw [hdigit] at hc
      exact Bool.false_ne_true hc
  rw [scalar?, if_neg (hname 'n' _ (by decide) (by decide) (by decide)),
    if_neg (hname 't' _ (by decide) (by decide) (by decide)), if_neg (hname 'f' _ (by decide) (by decide) (by decide)),
    ofInt_eq, read?_signed, Option.map_some, value?_ofInt h]

/-! ## Values -/

/-- A value whose numbers are all integers of sixty-four bits. -/
inductive Value.Integral : Value → Prop where
  | null : Integral .null
  | bool (b : Bool) : Integral (.bool b)
  | number {i : Int} (h : FitsWord i) : Integral (.number (.int i))
  | string (t : Text) : Integral (.string t)
  | array {items : List Value} (h : ∀ item ∈ items, Integral item) : Integral (.array items)
  | object {members : List (Text × Value)} (h : ∀ member ∈ members, Integral member.2) : Integral (.object members)

/-- Whether a text is read as a document wherever a value has to come and no scalar goes on behind it. -/
def Writes (t : Text) (document : Document) : Prop :=
  ∃ first more, (∀ rest, Stops rest → tokens? (t ++ rest) = (tokens? rest).map (first :: more ++ ·)) ∧
    ∀ frames, ((Reading.takeValue frames first).bind fun reading => more.foldlM Reading.step reading) =
      some (.put document frames)

lemma stops_mark {c : Char} (hc : isScalarChar c = false) (rest : Text) : Stops (c :: rest) := by
  intro d more h
  obtain ⟨rfl, rfl⟩ := List.cons.inj h
  exact hc

lemma writes_scalar {word : Text} {document : Document} (hword : ∀ c ∈ word, isScalarChar c = true)
    (hscalar : scalar? word = some document) : Writes word document :=
  ⟨.scalar document, [], fun _ hrest => tokens?_scalar hword hscalar hrest, fun _ => rfl⟩

lemma writes_stringText (t : Text) : Writes (stringText t) (.string (some t)) :=
  ⟨.string (some t), [], fun rest _ => tokens?_stringText t rest, fun _ => rfl⟩

/-- Behind what has been read more tokens are taken from there. -/
lemma bind_foldlM_append {start : Option Reading} {tokens : List Token} {reading : Reading}
    (h : (start.bind fun r => tokens.foldlM Reading.step r) = some reading) (later : List Token) :
    (start.bind fun r => (tokens ++ later).foldlM Reading.step r) = later.foldlM Reading.step reading := by
  obtain ⟨r, rfl, hreading⟩ := Option.bind_eq_some_iff.1 h
  rw [Option.bind_some, List.foldlM_append, hreading]
  rfl

/-- The items of an array with the bracket behind them take a reading to where the array has been put in. -/
lemma writes_items {items : List Value} (hne : items ≠ [])
    (h : ∀ item ∈ items, Writes item.compact (.ofValue item)) :
    ∃ first more, (∀ rest, tokens? (Value.compact.compactItems items ++ ']' :: rest) =
        (tokens? rest).map (first :: more ++ ·)) ∧
      ∀ done outer, ((Reading.takeValue (.array done :: outer) first).bind fun reading =>
        more.foldlM Reading.step reading) =
          some (.put (.array (done.reverse ++ Document.ofValue.ofValues items)) outer) := by
  -- by induction on the items; a comma leads to the next one, a bracket to the array around them
  induction items with
  | nil => exact absurd rfl hne
  | cons item rest ih =>
    obtain ⟨⟨first, more, htokens, hreading⟩, hrest⟩ := List.forall_mem_cons.1 h
    cases rest with
    | nil =>
      refine ⟨first, more ++ [.endArray], fun behind => ?_, fun done outer => ?_⟩
      · rw [Value.compact.compactItems, htokens _ (stops_mark (by decide) behind), tokens?_mark rfl]
        cases tokens? behind <;> simp
      · rw [bind_foldlM_append (hreading _)]
        show some (Reading.put (.array (Document.ofValue item :: done).reverse) outer) = _
        rw [List.reverse_cons]
        rfl
    | cons next rest =>
      obtain ⟨first', more', htokens', hreading'⟩ := ih (List.cons_ne_nil next rest) hrest
      refine ⟨first, more ++ .comma :: first' :: more', fun behind => ?_, fun done outer => ?_⟩
      · have htext : Value.compact.compactItems (item :: next :: rest) =
          item.compact ++ ',' :: Value.compact.compactItems (next :: rest) := rfl
        rw [htext, List.append_assoc, List.cons_append, htokens _ (stops_mark (by decide) _), tokens?_mark rfl,
          htokens']
        cases tokens? behind <;> simp
      · rw [bind_foldlM_append (hreading _)]
        show ((Reading.takeValue (.array (Document.ofValue item :: done) :: outer) first').bind fun reading =>
          more'.foldlM Reading.step reading) = _
        rw [hreading', List.reverse_cons, List.append_assoc]
        rfl

/-- The members of an object from the first key on, with the brace behind them, take a reading to where the object has
been put in. -/
lemma writes_members {key : Text} {value : Value} {rest : List (Text × Value)}
    (h : ∀ member ∈ (key, value) :: rest, Writes member.2.compact (.ofValue member.2)) :
    ∃ more, (∀ behind, tokens? (Value.compact.compactMembers ((key, value) :: rest) ++ '}' :: behind) =
        (tokens? behind).map (.string (some key) :: more ++ ·)) ∧
      ∀ done outer, more.foldlM Reading.step (.colon done (some key) outer) =
        some (.put (.object (done.reverse ++ Document.ofValue.ofMembers ((key, value) :: rest))) outer) := by
  -- by induction on the members behind the first one, which stands behind its name already
  induction rest generalizing key value with
  | nil =>
    obtain ⟨⟨first, more, htokens, hreading⟩, -⟩ := List.forall_mem_cons.1 h
    refine ⟨.colon :: first :: more ++ [.endObject], fun behind => ?_, fun done outer => ?_⟩
    · have htext : Value.compact.compactMembers [(key, value)] = stringText key ++ ':' :: value.compact := rfl
      rw [htext, List.append_assoc, List.cons_append, tokens?_stringText, tokens?_mark rfl,
        htokens _ (stops_mark (by decide) behind), tokens?_mark rfl]
      cases tokens? behind <;> simp
    · have hvalue := bind_foldlM_append (hreading (.member done (some key) :: outer)) [.endObject]
      show ((Reading.takeValue (.member done (some key) :: outer) first).bind fun reading =>
        (more ++ [Token.endObject]).foldlM Reading.step reading) = _
      rw [hvalue]
      show some (Reading.put (.object ((some key, Document.ofValue value) :: done).reverse) outer) = _
      rw [List.reverse_cons]
      rfl
  | cons next rest ih =>
    obtain ⟨key', value'⟩ := next
    obtain ⟨⟨first, more, htokens, hreading⟩, hrest⟩ := List.forall_mem_cons.1 h
    obtain ⟨more', htokens', hreading'⟩ := ih hrest
    refine ⟨.colon :: first :: more ++ .comma :: .string (some key') :: more', fun behind => ?_, fun done outer => ?_⟩
    · have htext : Value.compact.compactMembers ((key, value) :: (key', value') :: rest) =
        stringText key ++ ':' :: value.compact ++ ',' :: Value.compact.compactMembers ((key', value') :: rest) := rfl
      rw [htext, List.append_assoc, List.append_assoc, List.cons_append, tokens?_stringText, tokens?_mark rfl,
        List.cons_append, htokens _ (stops_mark (by decide) _), tokens?_mark rfl, htokens']
      cases tokens? behind <;> simp
    · have hvalue := bind_foldlM_append (hreading (.member done (some key) :: outer))
        (.comma :: .string (some key') :: more')
      show ((Reading.takeValue (.member done (some key) :: outer) first).bind fun reading =>
        (more ++ Token.comma :: .string (some key') :: more').foldlM Reading.step reading) = _
      rw [hvalue]
      show more'.foldlM Reading.step (.colon ((some key, Document.ofValue value) :: done) (some key') outer) = _
      rw [hreading', List.reverse_cons, List.append_assoc]
      rfl

/-- An array is written if its items are. -/
lemma writes_array {items : List Value} (h : ∀ item ∈ items, Writes item.compact (.ofValue item)) :
    Writes (Value.array items).compact (.ofValue (.array items)) := by
  cases items with
  | nil =>
    refine ⟨.beginArray, [.endArray], fun rest _ => ?_, fun frames => rfl⟩
    show tokens? ('[' :: ']' :: rest) = _
    rw [tokens?_mark rfl, tokens?_mark rfl]
    cases tokens? rest <;> rfl
  | cons item items =>
    obtain ⟨first, more, htokens, hreading⟩ := writes_items (List.cons_ne_nil item items) h
    refine ⟨.beginArray, first :: more, fun rest _ => ?_, fun frames => ?_⟩
    · have htext : (Value.array (item :: items)).compact ++ rest =
        '[' :: (Value.compact.compactItems (item :: items) ++ ']' :: rest) := by simp [Value.compact]
      rw [htext, tokens?_mark rfl, htokens]
      cases tokens? rest <;> rfl
    · -- the first token of an item does not close the array
      have hitem := hreading [] frames
      have hfirst : Reading.step (.firstItem frames) first = Reading.takeValue (.array [] :: frames) first := by
        cases first <;> first | rfl | simp [Reading.takeValue] at hitem
      show ((Reading.step (.firstItem frames) first).bind fun reading => more.foldlM Reading.step reading) = _
      rw [hfirst, hitem]
      rfl

/-- An object is written if its members are. -/
lemma writes_object {members : List (Text × Value)}
    (h : ∀ member ∈ members, Writes member.2.compact (.ofValue member.2)) :
    Writes (Value.object members).compact (.ofValue (.object members)) := by
  cases members with
  | nil =>
    refine ⟨.beginObject, [.endObject], fun rest _ => ?_, fun frames => rfl⟩
    show tokens? ('{' :: '}' :: rest) = _
    rw [tokens?_mark rfl, tokens?_mark rfl]
    cases tokens? rest <;> rfl
  | cons member members =>
    obtain ⟨key, value⟩ := member
    obtain ⟨more, htokens, hreading⟩ := writes_members h
    refine ⟨.beginObject, .string (some key) :: more, fun rest _ => ?_, fun frames => hreading [] frames⟩
    have htext : (Value.object ((key, value) :: members)).compact ++ rest =
      '{' :: (Value.compact.compactMembers ((key, value) :: members) ++ '}' :: rest) := by simp [Value.compact]
    rw [htext, tokens?_mark rfl, htokens]
    cases tokens? rest <;> rfl

/-- A value is read as it is written. -/
lemma writes_compact {v : Value} (h : v.Integral) : Writes v.compact (.ofValue v) := by
  induction h with
  | null => exact writes_scalar (List.all_eq_true.1 rfl) rfl
  | bool b => cases b <;> exact writes_scalar (List.all_eq_true.1 rfl) rfl
  | number h =>
    refine writes_scalar (fun c hc => ?_) (scalar?_ofInt h)
    rcases mem_ofInt hc with rfl | hdigit
    · decide
    · simp [isScalarChar, Char.isAlphanum, hdigit]
  | string t => exact writes_stringText t
  | array _ ih => exact writes_array ih
  | object _ ih => exact writes_object ih

/-- The document of a value is read from its text. -/
theorem read?_compact {v : Value} (h : v.Integral) : Document.read? v.compact = some (.ofValue v) := by
  obtain ⟨first, more, htokens, hreading⟩ := writes_compact h
  have htext := htokens [] fun _ _ h => nomatch h
  rw [List.append_nil] at htext
  have hfold : (first :: more).foldlM Reading.step (.value []) = some (.finished (.ofValue v)) := hreading []
  rw [Document.read?, htext]
  simp only [tokens?, Option.map_some, Option.bind_some, List.append_nil, Document.ofTokens?, hfold]

/-! ## The value of a document -/

/-- A value whose objects list their members in ascending order of keys. -/
inductive Value.Ordered : Value → Prop where
  | null : Ordered .null
  | bool (b : Bool) : Ordered (.bool b)
  | number (n : Number) : Ordered (.number n)
  | string (t : Text) : Ordered (.string t)
  | array {items : List Value} (h : ∀ item ∈ items, Ordered item) : Ordered (.array items)
  | object {members : List (Text × Value)} (hkeys : Table.Ascending members)
    (h : ∀ member ∈ members, Ordered member.2) : Ordered (.object members)

/-- Items that come back one by one come back as a row. -/
lemma toValues?_ofValues {items : List Value}
    (h : ∀ item ∈ items, (Document.ofValue item).toValue? = some item) :
    Document.toValue?.toValues? (Document.ofValue.ofValues items) = some items := by
  induction items with
  | nil => rfl
  | cons item rest ih =>
    obtain ⟨hitem, hrest⟩ := List.forall_mem_cons.1 h
    rw [Document.ofValue.ofValues, Document.toValue?.toValues?, hitem, ih hrest]
    rfl

/-- Members that come back one by one come back as a row. -/
lemma toMembers?_ofMembers {members : List (Text × Value)}
    (h : ∀ member ∈ members, (Document.ofValue member.2).toValue? = some member.2) :
    Document.toValue?.toMembers? (Document.ofValue.ofMembers members) = some members := by
  induction members with
  | nil => rfl
  | cons member rest ih =>
    obtain ⟨key, value⟩ := member
    obtain ⟨hvalue, hrest⟩ := List.forall_mem_cons.1 h
    rw [Document.ofValue.ofMembers, Document.toValue?.toMembers?, hvalue, ih hrest]
    rfl

/-- The document of a value stands for the value. -/
theorem toValue?_ofValue {v : Value} (h : v.Ordered) : (Document.ofValue v).toValue? = some v := by
  induction h with
  | null | bool | number | string => rfl
  | array _ ih => rw [Document.ofValue, Document.toValue?, toValues?_ofValues ih, Option.map_some]
  | object hkeys _ ih =>
    rw [Document.ofValue, Document.toValue?, toMembers?_ofMembers ih, Option.map_some,
      Table.ofEntries_of_ascending hkeys]

/-! ## Depth -/

lemma depthItems_le_iff {items : List Value} {n : Nat} :
    Value.depth.depthItems items ≤ n ↔ ∀ item ∈ items, item.depth ≤ n := by
  induction items with
  | nil => simp [Value.depth.depthItems]
  | cons item rest ih => rw [Value.depth.depthItems, Nat.max_le, ih, List.forall_mem_cons]

lemma depthMembers_le_iff {members : List (Text × Value)} {n : Nat} :
    Value.depth.depthMembers members ≤ n ↔ ∀ member ∈ members, member.2.depth ≤ n := by
  induction members with
  | nil => simp [Value.depth.depthMembers]
  | cons member rest ih => rw [Value.depth.depthMembers, Nat.max_le, ih, List.forall_mem_cons]

lemma depthItems_ofValues {items : List Value} (h : ∀ item ∈ items, (Document.ofValue item).depth = item.depth) :
    Document.depth.depthItems (Document.ofValue.ofValues items) = Value.depth.depthItems items := by
  induction items with
  | nil => rfl
  | cons item rest ih =>
    obtain ⟨hitem, hrest⟩ := List.forall_mem_cons.1 h
    rw [Document.ofValue.ofValues, Document.depth.depthItems, Value.depth.depthItems, hitem, ih hrest]

lemma depthMembers_ofMembers {members : List (Text × Value)}
    (h : ∀ member ∈ members, (Document.ofValue member.2).depth = member.2.depth) :
    Document.depth.depthMembers (Document.ofValue.ofMembers members) = Value.depth.depthMembers members := by
  induction members with
  | nil => rfl
  | cons member rest ih =>
    obtain ⟨key, value⟩ := member
    obtain ⟨hvalue, hrest⟩ := List.forall_mem_cons.1 h
    rw [Document.ofValue.ofMembers, Document.depth.depthMembers, Value.depth.depthMembers, hvalue, ih hrest]

lemma depth_ofValue (v : Value) : (Document.ofValue v).depth = v.depth := by
  induction v using Value.rec_parts with
  | null | bool | number | string => rfl
  | array items ih => rw [Document.ofValue, Document.depth, Value.depth, depthItems_ofValues ih]
  | object members ih => rw [Document.ofValue, Document.depth, Value.depth, depthMembers_ofMembers ih]

end Stencil.Json
