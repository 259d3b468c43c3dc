import Mathlib.Algebra.GroupWithZero.Nat
import Stencil.Proofs.Markup.Reading
import Stencil.Proofs.Markup.TagForm
import Stencil.Proofs.Pattern.Occurrence

/-!
# How long a sanitised document is

A sanitiser may lengthen a document: signs are written as entities, and values without quotes get some. What a character
takes at most in the end does not depend on where it stands (`weight`), and no stage makes a document weigh more: the
removal of elements only drops characters, text between tags is neutralised sign by sign, and a value of an attribute
weighs no more decoded than before. Around the value of an attribute its equals sign pays for the quotes and the blank
in front. An attribute without a value is followed by a character that belongs to no attribute, since names are read as
far as they go, and that character pays for the blank.

Main statement: a sanitised document takes no more bytes than the document weighs (`byteLength_sanitize_le`), and so six
times its bytes at most.
-/

namespace Stencil

/-! ## Sums over characters -/

namespace Text

/-- What a text takes if each character takes so much. -/
def total (size : Char → Nat) (t : Text) : Nat := (t.map size).sum

variable {f g : Char → Nat}

@[simp] lemma total_nil : total f [] = 0 := rfl

@[simp] lemma total_cons (c : Char) (t : Text) : total f (c :: t) = f c + total f t := rfl

@[simp] lemma total_append (s t : Text) : total f (s ++ t) = total f s + total f t := by
  simp [total]

lemma byteLength_eq_total (t : Text) : byteLength t = total Char.utf8Size t := by
  induction t with
  | nil => rfl
  | cons c t ih => rw [byteLength_cons, total_cons, ih]

lemma total_le_total {t : Text} (h : ∀ c ∈ t, f c ≤ g c) : total f t ≤ total g t := by
  induction t with
  | nil => exact Nat.le_refl 0
  | cons c t ih =>
    obtain ⟨hc, ht⟩ := List.forall_mem_cons.1 h
    exact Nat.add_le_add hc (ih ht)

/-- If what replaces each character has no greater total than the character counts for, replacing all of them
does not exceed the total either. -/
lemma total_flatMap_le {w : Char → Text} (h : ∀ c, total f (w c) ≤ g c) (t : Text) :
    total f (t.flatMap w) ≤ total g t := by
  induction t with
  | nil => exact Nat.le_refl 0
  | cons c t ih =>
    rw [List.flatMap_cons, total_append]
    exact Nat.add_le_add (h c) ih

lemma length_le_total (h : ∀ c, 1 ≤ f c) (t : Text) : t.length ≤ total f t := by
  induction t with
  | nil => exact Nat.le_refl 0
  | cons c t ih =>
    have := h c
    rw [List.length_cons, total_cons]
    omega

/-- The small letter of a character takes as many bytes. -/
lemma utf8Size_toLower (c : Char) : c.toLower.utf8Size = c.utf8Size := by
  have hascii : ∀ d : Char, d.val.toNat ≤ 127 → d.utf8Size = 1 := fun d hd => if_pos (UInt32.le_iff_toNat_le.2 hd)
  unfold Char.toLower
  split
  · rename_i h
    simp only [ge_iff_le, UInt32.le_iff_toNat_le] at h
    change 65 ≤ _ ∧ _ ≤ 90 at h
    have hgap : ('a'.val - 'A'.val).toNat = 32 := rfl
    rw [hascii c (by omega), hascii _ (by rw [UInt32.toNat_add, hgap]; omega)]
  · rfl

lemma byteLength_toLower_le (t : Text) : byteLength (toLower t) ≤ byteLength t := by
  unfold toLower
  induction t with
  | nil => exact Nat.le_refl 0
  | cons c t ih =>
    rw [List.map_cons, byteLength_cons, byteLength_cons, utf8Size_toLower]
    omega

end Text

namespace Markup

open Pattern Text

/-! ## Weights -/

/-- The bytes that a character of a document takes at most when it is sanitised. -/
def weight (c : Char) : Nat :=
  match c with
  | '<' | '>' => 4
  | '&' | '=' | ':' | '\x60' => 5
  | '"' | '\'' => 6
  | c => c.utf8Size

lemma utf8Size_le_weight (c : Char) : c.utf8Size ≤ weight c := by
  unfold weight
  split <;> first | decide | exact Nat.le_refl _

lemma one_le_weight (c : Char) : 1 ≤ weight c := Nat.le_trans c.utf8Size_pos (utf8Size_le_weight c)

lemma byteLength_le_total (t : Text) : byteLength t ≤ total weight t := by
  rw [byteLength_eq_total]
  exact total_le_total fun c _ => utf8Size_le_weight c

lemma weight_le (c : Char) : weight c ≤ 6 := by
  unfold weight
  split <;> first | decide | exact Nat.le_trans c.utf8Size_le_four (by decide)

/-- A text weighs at most six times its bytes. -/
lemma total_weight_le (t : Text) : total weight t ≤ 6 * byteLength t := by
  induction t with
  | nil => exact Nat.le_refl 0
  | cons c t ih =>
    have hc := weight_le c
    have hpos := c.utf8Size_pos
    rw [total_cons, byteLength_cons]
    omega

/-! ## Signs written as entities -/

/-- Writing some signs as entities takes what it takes to write all of them so. -/
lemma Recoded.total_le {sign : Char} {entity s t : Text} (h : Recoded sign entity s t) {f g : Char → Nat}
    (hkeep : ∀ c, f c ≤ g c) (hsign : total f entity ≤ g sign) : total f t ≤ total g s := by
  induction h with
  | nil => exact Nat.le_refl 0
  | keep c _ ih => exact Nat.add_le_add (hkeep c) ih
  | write _ ih =>
    rw [total_append]
    exact Nat.add_le_add hsign ih

/-- The bytes of a character that may be a sign written as an entity. -/
def entitySize (sign c : Char) : Nat := if c = sign then 5 else c.utf8Size

/-- A sign that is written as a reference takes no less room than it did. -/
lemma utf8Size_le_entitySize {sign : Char} (hsign : sign.utf8Size ≤ 5) (c : Char) :
    c.utf8Size ≤ entitySize sign c := by
  unfold entitySize
  split
  · rename_i h
    rwa [h]
  · exact Nat.le_refl _

lemma entitySize_le_weight {sign : Char} (hsign : 5 ≤ weight sign) (c : Char) : entitySize sign c ≤ weight c := by
  unfold entitySize
  split
  · rename_i h
    rwa [h]
  · exact utf8Size_le_weight c

lemma byteLength_breakEvents_le (t : Text) : byteLength (breakEvents t) ≤ total (entitySize '=') t := by
  rw [byteLength_eq_total]
  exact (recoded_breakEvents t).total_le (utf8Size_le_entitySize (by decide)) (by decide)

lemma byteLength_breakSchemes_le (t : Text) : byteLength (breakSchemes t) ≤ total (entitySize ':') t := by
  rw [byteLength_eq_total]
  exact (recoded_breakSchemes t).total_le (utf8Size_le_entitySize (by decide)) (by decide)

/-- A text between tags takes no more bytes than it weighs. -/
lemma byteLength_neutralize_le (t : Text) : byteLength (neutralize t) ≤ total weight t := by
  -- a text in which both signs may become entities
  let size : Char → Nat := fun c => if c = ':' then 5 else entitySize '=' c
  have hkeep : ∀ c, entitySize '=' c ≤ size c := by
    intro c
    by_cases hc : c = ':'
    · subst hc
      decide
    · exact Nat.le_of_eq (if_neg hc).symm
  have hchar : ∀ c, total size (if c == '<' then "&lt;" else [c]) ≤ weight c := by
    intro c
    by_cases hless : c = '<'
    · subst hless
      decide
    · rw [if_neg (by simpa using hless)]
      by_cases hc : c = ':'
      · subst hc
        decide
      · exact Nat.le_trans (Nat.le_of_eq (if_neg hc)) (entitySize_le_weight (by decide) c)
  calc byteLength (neutralize t)
      ≤ total (entitySize '=') (breakSchemes (t.flatMap fun c => if c == '<' then "&lt;" else [c])) :=
        byteLength_breakEvents_le _
    _ ≤ total size (t.flatMap fun c => if c == '<' then "&lt;" else [c]) :=
        (recoded_breakSchemes _).total_le hkeep (by decide)
    _ ≤ total weight t := total_flatMap_le hchar t

/-! ## What is removed -/

/-- A text weighs no more with its matches replaced if no match does. -/
lemma total_replaceAll_le {f : Char → Nat} {pattern : Pattern} {replacement : Match → Text}
    (h : ∀ {position previous s m}, pattern.matchAt? position previous s = some m →
      total f (replacement m) ≤ total f m.text)
    (t : Text) : total f (pattern.replaceAll replacement t) ≤ total f t := by
  refine replaceAll_induction (R := fun s s' => total f s' ≤ total f s) (fun s => Nat.le_refl _) ?_ h t
  intro a a' b b' ha hb
  rw [total_append, total_append]
  exact Nat.add_le_add ha hb

lemma total_remove_le (pattern : Pattern) (t : Text) : total weight (remove pattern t) ≤ total weight t :=
  total_replaceAll_le (fun _ => Nat.zero_le _) t

lemma total_sweep_le (t : Text) : total weight (sweep t) ≤ total weight t := by
  unfold sweep
  induction removed generalizing t with
  | nil => exact Nat.le_refl _
  | cons pattern rest ih => exact Nat.le_trans (ih _) (total_remove_le pattern t)

/-- Nor does any number of rounds. -/
lemma total_sweepRounds_le (rounds : Nat) (t : Text) : total weight (sweepRounds rounds t) ≤ total weight t := by
  induction rounds generalizing t with
  | zero => exact Nat.le_refl _
  | succ rounds ih =>
    rw [sweepRounds]
    split
    · exact total_sweep_le t
    · exact Nat.le_trans (ih _) (total_sweep_le t)

/-! ## Values of attributes -/

lemma total_escapeChar_le (c : Char) : total (entitySize ':') (Attribute.escapeChar c) ≤ weight c := by
  unfold Attribute.escapeChar
  split <;> first | decide | exact entitySize_le_weight (by decide) c

lemma byteLength_escapeValue_le (t : Text) : byteLength (Attribute.escapeValue t) ≤ total weight t :=
  Nat.le_trans (byteLength_breakSchemes_le _) (total_flatMap_le total_escapeChar_le t)

/-- No match is shorter than the shortest text of its pattern. -/
lemma least_le_length_of_matchAt? {pattern : Pattern} {position : Nat} {previous : Option Char} {t : Text} {m : Match}
    (h : pattern.matchAt? position previous t = some m) : pattern.least ≤ m.text.length := by
  obtain ⟨p', t', hmem, htext, -⟩ := exists_end_of_matchAt? h
  have hleast := position_add_least_le hmem
  obtain ⟨passed, rfl, hposition⟩ := reaches_of_mem_ends hmem
  rw [htext, hposition, List.take_left' (by dsimp only; omega)]
  dsimp only at hleast hposition
  omega

/-- An entity weighs at least seven, whatever its character takes. -/
lemma total_entity_ge {position : Nat} {previous : Option Char} {t : Text} {m : Match}
    (h : entity.matchAt? position previous t = some m) : 7 ≤ total weight m.text := by
  have hlength := least_le_length_of_matchAt? h
  have hleast : entity.least = 3 := by decide
  obtain ⟨htext, -⟩ := text_of_matchAt? h
  cases t with
  | nil =>
    rw [List.take_nil] at htext
    rw [htext] at hlength
    simp [hleast] at hlength
  | cons c rest =>
    obtain rfl : c = '&' := by
      by_contra hc
      rw [matchAt?_entity_eq_none hc] at h
      simp at h
    obtain ⟨n, hn⟩ := Nat.exists_eq_add_of_le' (hleast ▸ hlength)
    rw [hn, List.take_succ_cons] at htext
    have hrest := length_le_total one_le_weight (List.take (n + 2) rest)
    have hsize := congrArg List.length htext
    rw [List.length_cons] at hsize
    rw [htext, total_cons, show weight '&' = 5 from rfl]
    omega

/-- What a reference stands for weighs at most six. -/
lemma total_decodeEntity_le (m : Match) : total weight (decodeEntity m) ≤ 6 := by
  have hchar : ∀ c, total weight [c] ≤ 6 := fun c => weight_le c
  have hchoice : ∀ {p : Prop} [Decidable p] {c : Char} {t : Text}, total weight t ≤ 6 →
      total weight (if p then [c] else t) ≤ 6 := by
    intro p _ c t ht
    split
    · exact hchar c
    · exact ht
  have hnumber : ∀ n, total weight (charOfNumber n) ≤ 6 := fun _ => hchoice (Nat.zero_le 6)
  unfold decodeEntity
  split
  · exact hnumber _
  · exact hnumber _
  · unfold charOfName
    iterate 10 refine hchoice ?_
    exact Nat.zero_le 6

/-- A value weighs no more when it is decoded. -/
lemma total_decodeEntities_le (t : Text) : total weight (decodeEntities t) ≤ total weight t :=
  total_replaceAll_le (fun {_ _ _ m} hm =>
    calc total weight (decodeEntity m) ≤ 6 := total_decodeEntity_le m
      _ ≤ 7 := by decide
      _ ≤ total weight m.text := total_entity_ge hm) t

/-! ## Attributes -/

namespace Attribute

/-- What has been passed from a place on, and the only group in it. -/
structure Remembers (p p' : Place) (passed : Text) (number : Nat) (value : Text) : Prop where
  position : p'.position = p.position + passed.length
  captured : p'.captured.map (fun c => (c.number, c.text)) =
    (number, value) :: p.captured.map fun c => (c.number, c.text)

/-- A quoted value stands between its quotes and is remembered without them. -/
lemma exists_of_mem_ends_quoted {quote : Char} {number : Nat} {p p' : Place} {t t' : Text}
    (h : (p', t') ∈ (quoted quote number).ends p t) :
    ∃ value, t = [quote] ++ value ++ [quote] ++ t' ∧
      Remembers p p' ([quote] ++ value ++ [quote]) number value := by
  obtain ⟨p2, t2, hfront, hclose⟩ := mem_ends_sequence.1 h
  obtain ⟨p1, t1, hopen, hgroup⟩ := mem_ends_sequence.1 hfront
  obtain ⟨q, hvalue, rfl⟩ := mem_ends_group.1 hgroup
  obtain ⟨rfl, rfl⟩ := mem_ends_exactly.1 hopen
  obtain ⟨value, -, rfl, rfl⟩ := mem_ends_many.1 hvalue
  obtain ⟨rfl, rfl⟩ := mem_ends_exactly.1 hclose
  refine ⟨value, by simp, ?_, ?_⟩
  · simp only [Place.position_next, Place.position_remember, Place.position_after, List.length_append,
      List.length_cons, List.length_nil]
    omega
  · simp only [Place.captured_next, Place.captured_remember, Place.captured_after, List.map_cons]
    rw [Capture.text_passed]

/-- With the equals sign in front, what is assigned weighs more than the value by what the sign weighs. -/
lemma exists_of_mem_ends_assigned {p p' : Place} {t t' : Text} (h : (p', t') ∈ assigned.ends p t) :
    ∃ tail number value, t = tail ++ t' ∧ Remembers p p' tail number value ∧ number ∈ [2, 3, 4] ∧
      total weight value + 5 ≤ total weight tail := by
  obtain ⟨p3, t3, hfront, hvalue⟩ := mem_ends_sequence.1 h
  obtain ⟨p2, t2, hfront, hblanks'⟩ := mem_ends_sequence.1 hfront
  obtain ⟨p1, t1, hblanks, hequals⟩ := mem_ends_sequence.1 hfront
  obtain ⟨b, -, rfl, rfl⟩ := mem_ends_many.1 hblanks
  obtain ⟨rfl, rfl⟩ := mem_ends_exactly.1 hequals
  obtain ⟨b', -, rfl, rfl⟩ := mem_ends_many.1 hblanks'
  -- a value is quoted in one of two ways or bare; the quotes weigh something, the value itself what it weighs
  have hvalue : ∃ passed number value, t3 = passed ++ t' ∧
      Remembers (((p.after b).next '=').after b') p' passed number value ∧ number ∈ [2, 3, 4] ∧
      total weight value ≤ total weight passed := by
    obtain ⟨pattern, hpattern, hvalue⟩ := mem_ends_oneOfThese.1 hvalue
    simp only [List.mem_cons, List.not_mem_nil, or_false] at hpattern
    rcases hpattern with rfl | rfl | rfl
    · obtain ⟨value, hsource, hremembers⟩ := exists_of_mem_ends_quoted hvalue
      refine ⟨_, 2, value, hsource, hremembers, by decide, ?_⟩
      simp only [total_append]
      omega
    · obtain ⟨value, hsource, hremembers⟩ := exists_of_mem_ends_quoted hvalue
      refine ⟨_, 3, value, hsource, hremembers, by decide, ?_⟩
      simp only [total_append]
      omega
    · obtain ⟨q, hq, rfl⟩ := mem_ends_group.1 hvalue
      obtain ⟨value, -, -, -, rfl, rfl⟩ := mem_ends_repetition.1 hq
      refine ⟨value, 4, value, rfl, ⟨?_, ?_⟩, by decide, Nat.le_refl _⟩
      · rw [Place.position_remember, Place.position_after]
      · rw [Place.captured_remember, Place.captured_after, List.map_cons, Capture.text_passed]
  obtain ⟨passed, number, value, rfl, hremembers, hnumber, hle⟩ := hvalue
  refine ⟨b ++ '=' :: b' ++ passed, number, value, by simp, ⟨?_, ?_⟩, hnumber, ?_⟩
  · rw [hremembers.position]
    simp only [Place.position_next, Place.position_after, List.length_append, List.length_cons]
    omega
  · rw [hremembers.captured, Place.captured_after, Place.captured_next, Place.captured_after]
  · -- the equals sign alone pays for the five bytes
    simp only [total_append, total_cons, show weight '=' = 5 from rfl]
    omega

/-- What is found behind a name: nothing, or a value. The name is remembered either way. -/
lemma exists_of_found? {start p' : Place} {name s : Text}
    (h : found? start (name ++ s) (start.after name) s = some p') :
    ∃ tail behind, s = tail ++ behind ∧ p'.position = start.position + (name ++ tail).length ∧
      ((tail = [] ∧ p'.captured.map (fun c => (c.number, c.text)) =
          (1, name) :: start.captured.map fun c => (c.number, c.text)) ∨
        ∃ number value, number ∈ [2, 3, 4] ∧ total weight value + 5 ≤ total weight tail ∧
          p'.captured.map (fun c => (c.number, c.text)) =
            (number, value) :: (1, name) :: start.captured.map fun c => (c.number, c.text)) := by
  unfold found? at h
  generalize hq : (start.after name).remember 1 (name ++ s) ((start.after name).position - start.position) = q at h
  have hposition : q.position = start.position + name.length := by
    rw [← hq, Place.position_remember, Place.position_after]
  have hcaptured : q.captured.map (fun c => (c.number, c.text)) =
      (1, name) :: start.captured.map fun c => (c.number, c.text) := by
    rw [← hq, Place.captured_remember, Place.captured_after, List.map_cons, Capture.text_passed]
  have h : ((assigned.search (fun q _ => some q) q s).orElse fun _ => some q) = some p' := h
  -- a value is taken if there is one, and otherwise the name alone
  cases hassigned : assigned.search (fun q _ => some q) q s with
  | none =>
    rw [hassigned, Option.orElse_none, Option.some.injEq] at h
    subst h
    exact ⟨[], s, rfl, by rw [hposition, List.append_nil], .inl ⟨rfl, hcaptured⟩⟩
  | some found =>
    rw [hassigned, Option.orElse_some, Option.some.injEq] at h
    subst h
    rw [search_eq_findSome?] at hassigned
    obtain ⟨⟨q', behind⟩, hmem, hq'⟩ := List.exists_of_findSome?_eq_some hassigned
    obtain rfl := Option.some.inj hq'
    obtain ⟨tail, number, value, rfl, hremembers, hnumber, hle⟩ := exists_of_mem_ends_assigned hmem
    refine ⟨tail, behind, rfl, ?_, .inr ⟨number, value, hnumber, hle, ?_⟩⟩
    · rw [hremembers.position, hposition, List.length_append, Nat.add_assoc]
    · rw [hremembers.captured, hcaptured]

/-- An attribute is a name, which is read as far as it goes, alone or with a value. With a value it weighs more than
both by what the equals sign weighs. -/
lemma exists_of_matchAt?_shape {position : Nat} {previous : Option Char} {t : Text} {m : Match}
    (h : shape.matchAt? position previous t = some m) :
    ∃ name tail behind, t = name ++ tail ++ behind ∧ m.text = name ++ tail ∧ m.group 1 = name ∧
      ((valueOf m = none ∧ tail = [] ∧ ∀ c rest, behind = c :: rest → isNameChar c = false) ∨
        ∃ value, valueOf m = some value ∧ total weight value + 5 ≤ total weight tail) := by
  unfold matchAt? at h
  split at h
  · simp at h
  rename_i p' hsearch
  cases t with
  | nil => simp [shape_eq, search_append, search, Pattern.char, pass?] at hsearch
  | cons c rest =>
    -- a match starts at a name and takes as much of it as there is
    rw [search_shape] at hsearch
    split at hsearch
    · have hrest : c :: rest = c :: rest.takeWhile isNameChar ++ rest.dropWhile isNameChar := by
        rw [List.cons_append, List.takeWhile_append_dropWhile]
      rw [hrest] at hsearch
      obtain ⟨tail, behind, hbehind, hposition, hfound⟩ := exists_of_found? hsearch
      split at h
      · simp at h
      obtain rfl := Option.some.inj h
      refine ⟨c :: rest.takeWhile isNameChar, tail, behind, ?_, ?_, ?_, ?_⟩
      · rw [hrest, hbehind, List.append_assoc]
      · rw [hrest, hbehind, ← List.append_assoc]
        exact List.take_left' (by rw [hposition]; exact (Nat.add_sub_cancel_left ..).symm)
      · rcases hfound with ⟨-, hcaptured⟩ | ⟨number, value, hnumber, -, hcaptured⟩
        · rw [Match.group, Match.group?, hcaptured]
          rfl
        · rw [Match.group, Match.group?, hcaptured]
          simp only [List.mem_cons, List.not_mem_nil, or_false] at hnumber
          rcases hnumber with rfl | rfl | rfl <;> rfl
      · -- without a value the name was read as far as it goes, so what follows is no character of names
        rcases hfound with ⟨rfl, hcaptured⟩ | ⟨number, value, hnumber, hle, hcaptured⟩
        · refine .inl ⟨?_, rfl, fun d more hd => ?_⟩
          · rw [valueOf, Match.group?, Match.group?, Match.group?, hcaptured]
            rfl
          · have hhead := List.head?_dropWhile_not isNameChar rest
            rw [hbehind, List.nil_append, hd] at hhead
            exact hhead
        · refine .inr ⟨value, ?_, hle⟩
          rw [valueOf, Match.group?, Match.group?, Match.group?, hcaptured]
          simp only [List.mem_cons, List.not_mem_nil, or_false] at hnumber
          rcases hnumber with rfl | rfl | rfl <;> rfl
    · simp at hsearch

/-- An attribute has the name of its match in small letters and the value decoded. -/
lemma eq_of_ofMatch? {m : Match} {a : Attribute} (h : ofMatch? m = some a) :
    a = ⟨Text.toLower (m.group 1), (valueOf m).map decodeEntities⟩ := by
  unfold ofMatch? at h
  dsimp only at h
  split at h
  · simp at h
  · split at h
    · simp at h
    · exact (Option.some.inj h).symm

/-- A kept attribute takes one byte more than its match weighs if it has no value, and no more than that if
the signs around its value leave room for the quotes. -/
lemma byteLength_kept_le {m : Match} {name tail : Text} (htext : m.text = name ++ tail) (hname : m.group 1 = name) :
    (valueOf m = none → byteLength (((ofMatch? m).map Attribute.text).getD []) ≤ total weight m.text + 1) ∧
      ∀ value, valueOf m = some value → total weight value + 5 ≤ total weight tail →
        byteLength (((ofMatch? m).map Attribute.text).getD []) ≤ total weight m.text := by
  cases hkept : ofMatch? m with
  | none => exact ⟨fun _ => Nat.zero_le _, fun _ _ _ => Nat.zero_le _⟩
  | some a =>
    obtain rfl := eq_of_ofMatch? hkept
    have hlower : byteLength (Text.toLower name) ≤ total weight name :=
      Nat.le_trans (byteLength_toLower_le name) (byteLength_le_total name)
    rw [htext, hname, total_append]
    refine ⟨fun hvalue => ?_, fun value hvalue hle => ?_⟩
    · rw [hvalue]
      show 1 + byteLength (Text.toLower name) ≤ _
      omega
    · have hescaped := Nat.le_trans (byteLength_escapeValue_le (decodeEntities value)) (total_decodeEntities_le value)
      rw [hvalue]
      show byteLength (' ' :: Text.toLower name ++ ['=', '"'] ++ escapeValue (decodeEntities value) ++ ['"']) ≤ _
      simp only [List.cons_append, byteLength_cons, byteLength_append, byteLength_nil]
      show 1 + (byteLength (Text.toLower name) + (1 + (1 + 0)) + byteLength (escapeValue (decodeEntities value)) +
        (1 + 0)) ≤ _
      omega

/-- The attributes of a tag take no more bytes than the text weighs that they were found in, and one for a blank. -/
lemma byteLength_keptText_le (position : Nat) (previous : Option Char) (t : Text) :
    byteLength (keptText (partsFrom shape 0 position previous t)) ≤ total weight t + 1 := by
  -- an attribute is passed at once, so the induction is on the length of what is left
  induction hlength : t.length using Nat.strong_induction_on generalizing position previous t with
  | _ n ih =>
    subst hlength
    cases t with
    | nil => exact Nat.zero_le 1
    | cons c rest =>
      cases hm : shape.matchAt? position previous (c :: rest) with
      | none =>
        have hrest := ih rest.length (Nat.lt_succ_self _) (position + 1) (some c) rest rfl
        rw [keptText_of_matchAt?_eq_none hm, total_cons]
        omega
      | some m =>
        obtain ⟨name, tail, behind, ht, htext, hname, hcase⟩ := exists_of_matchAt?_shape hm
        have hne : name ++ tail ≠ [] := htext ▸ text_ne_nil_of_matchAt? (List.cons_ne_nil c rest) hm
        have hshorter : behind.length < (c :: rest).length := by
          have := List.length_pos_iff.2 hne
          rw [ht, List.length_append]
          omega
        obtain ⟨hbare, hvalued⟩ := byteLength_kept_le htext hname
        rw [ht, partsFrom_of_matchAt? (ht ▸ hm) htext hne, keptText_found, byteLength_append, total_append]
        rw [htext] at hbare hvalued
        rcases hcase with ⟨hvalue, rfl, hbehind⟩ | ⟨value, hvalue, hle⟩
        · have hkept := hbare hvalue
          cases behind with
          | nil => exact hkept
          | cons d more =>
            -- no attribute begins at the character behind the name
            rw [keptText_of_matchAt?_eq_none (matchAt?_shape_eq_none (hbehind d more rfl) _ _ _), total_cons]
            have hmore := ih more.length (Nat.lt_of_succ_lt hshorter) (position + (name ++ []).length + 1) (some d) more
              rfl
            have hd := one_le_weight d
            omega
        · have hkept := hvalued value hvalue hle
          have hlater := ih behind.length hshorter (position + (name ++ tail).length) (name ++ tail).getLast? behind rfl
          omega

end Attribute

/-! ## Tags -/

namespace Tag

/-- A tag is an opening bracket, blanks around a slash, a name, everything else, and a closing bracket. -/
lemma exists_of_matchAt?_shape {position : Nat} {previous : Option Char} {t : Text} {m : Match}
    (h : shape.matchAt? position previous t = some m) :
    ∃ b b', m.text = '<' :: b ++ m.group 1 ++ b' ++ m.group 2 ++ m.group 3 ++ ['>'] := by
  obtain ⟨p', t', hmem, htext, hcaptured⟩ := exists_end_of_matchAt? h
  obtain ⟨p5, t5, hmem, hclose⟩ := mem_ends_sequence.1 hmem
  obtain ⟨p4, t4, hmem, hrest⟩ := mem_ends_sequence.1 hmem
  obtain ⟨p3, t3, hmem, hname⟩ := mem_ends_sequence.1 hmem
  obtain ⟨p2, t2, hmem, hblanks'⟩ := mem_ends_sequence.1 hmem
  obtain ⟨p1, t1, hmem, hslash⟩ := mem_ends_sequence.1 hmem
  obtain ⟨p0, t0, hopen, hblanks⟩ := mem_ends_sequence.1 hmem
  obtain ⟨rfl, rfl⟩ := mem_ends_exactly.1 hopen
  obtain ⟨b, -, rfl, rfl⟩ := mem_ends_many.1 hblanks
  obtain ⟨q1, hq1, rfl⟩ := mem_ends_group.1 hslash
  obtain ⟨slash, -, -, -, rfl, rfl⟩ := mem_ends_repetition.1 hq1
  obtain ⟨b', -, rfl, rfl⟩ := mem_ends_many.1 hblanks'
  obtain ⟨q3, hq3, rfl⟩ := mem_ends_group.1 hname
  obtain ⟨q2, s2, hfirst, hmore⟩ := mem_ends_sequence.1 hq3
  obtain ⟨c, -, rfl, rfl⟩ := mem_ends_char.1 hfirst
  obtain ⟨more, -, rfl, rfl⟩ := mem_ends_many.1 hmore
  obtain ⟨q4, hq4, rfl⟩ := mem_ends_group.1 hrest
  obtain ⟨rest, -, rfl, rfl⟩ := mem_ends_many.1 hq4
  obtain ⟨rfl, rfl⟩ := mem_ends_exactly.1 hclose
  -- the three groups remember the slash, the name and what follows the name
  have hgroups : m.captured = [(3, rest), (2, c :: more), (1, slash)] := by
    rw [hcaptured]
    simp only [Place.captured_next, Place.captured_remember, Place.captured_after, List.map_cons, List.map_nil]
    rw [Capture.text_passed, ← List.cons_append, ← Place.after_cons _ c more, Capture.text_passed, Capture.text_passed]
  have hsource : '<' :: b ++ slash ++ b' ++ (c :: more) ++ rest ++ ['>'] ++ t' =
      '<' :: (b ++ (slash ++ (b' ++ c :: (more ++ (rest ++ '>' :: t'))))) := by
    simp only [List.cons_append, List.append_assoc, List.nil_append]
  refine ⟨b, b', ?_⟩
  rw [Match.group, Match.group, Match.group, Match.group?, Match.group?, Match.group?, hgroups, htext, ← hsource]
  refine List.take_left' ?_
  simp only [Place.position_next, Place.position_remember, Place.position_after, List.length_append,
    List.length_cons, List.length_nil]
  omega

/-- A tag that is kept takes no more bytes than the one that was found weighs. -/
lemma byteLength_kept_le (allowed : List Text) {position : Nat} {previous : Option Char} {t : Text} {m : Match}
    (h : shape.matchAt? position previous t = some m) :
    byteLength (((ofMatch? allowed m).map Tag.text).getD []) ≤ total weight m.text := by
  obtain ⟨b, b', htext⟩ := exists_of_matchAt?_shape h
  have hname : byteLength (Text.toLower (m.group 2)) ≤ total weight (m.group 2) :=
    Nat.le_trans (byteLength_toLower_le _) (byteLength_le_total _)
  have hattributes := Attribute.byteLength_keptText_le 0 none (m.group 3)
  rw [← parts_eq] at hattributes
  -- the two brackets weigh eight together, enough for the brackets and a slash of the tag that is written
  have hweight : total weight m.text = 4 + total weight b + total weight (m.group 1) + total weight b' +
      total weight (m.group 2) + total weight (m.group 3) + 4 := by
    rw [htext]
    simp only [List.cons_append, total_cons, total_append, total_nil]
    show 4 + (_ + (4 + 0)) = _
    omega
  unfold ofMatch?
  dsimp only
  split
  · exact Nat.zero_le _
  · split
    · show byteLength (['<', '/'] ++ Text.toLower (m.group 2) ++ ['>']) ≤ _
      rw [byteLength_append, byteLength_append, hweight]
      show 2 + _ + 1 ≤ _
      omega
    · show byteLength ('<' :: Text.toLower (m.group 2) ++ Attribute.keptText (Attribute.shape.parts (m.group 3)) ++
        (if _ then [' ', '/'] else []) ++ ['>']) ≤ _
      have hslash : ∀ selfClosing : Bool, byteLength (if selfClosing then [' ', '/'] else []) ≤ 2 := by decide
      have := hslash ((Text.trimEnd (m.group 3)).getLast? == some '/')
      rw [byteLength_append, byteLength_append, byteLength_append, byteLength_cons, hweight]
      show 1 + _ + _ + _ + 1 ≤ _
      omega

end Tag

/-! ## Documents -/

/-- What is written for a part of a document takes no more bytes than the part weighs. -/
lemma Sanitizer.byteLength_written_le (s : Sanitizer) {t : Text} {part : Part} (hpart : part ∈ Tag.shape.parts t) :
    byteLength (s.written part) ≤ total weight part.source := by
  cases part with
  | plain plain => exact byteLength_neutralize_le plain
  | found m =>
    obtain ⟨position, previous, behind, hm⟩ := exists_matchAt?_of_mem_parts hpart
    exact Tag.byteLength_kept_le s.allowed hm

/-- Rebuilding the tags of a text makes it no longer than the text weighs. -/
lemma Sanitizer.byteLength_rebuild_le (s : Sanitizer) (t : Text) : byteLength (s.rebuild t) ≤ total weight t := by
  have hparts : ∀ parts : List Part, (∀ part ∈ parts, byteLength (s.written part) ≤ total weight part.source) →
      byteLength (parts.map s.written).flatten ≤ total weight (parts.flatMap Part.source) := by
    intro parts h
    induction parts with
    | nil => exact Nat.le_refl 0
    | cons part rest ih =>
      obtain ⟨hpart, hrest⟩ := List.forall_mem_cons.1 h
      rw [List.map_cons, List.flatten_cons, List.flatMap_cons, byteLength_append, total_append]
      exact Nat.add_le_add hpart (ih hrest)
  have hle := hparts (Tag.shape.parts t) fun part hpart => s.byteLength_written_le hpart
  rwa [← s.rebuild_eq, flatten_parts] at hle

/-- A sanitised document takes no more bytes than the document weighs. -/
theorem Sanitizer.byteLength_sanitize_le (s : Sanitizer) (t : Text) : byteLength (s.sanitize t) ≤ total weight t :=
  Nat.le_trans (s.byteLength_rebuild_le _) (total_sweepRounds_le maxRounds t)

end Markup

end Stencil
