import Stencil.Proofs.Inspection.Blanking
import Stencil.Proofs.Inspection.Cleaning
import Stencil.Proofs.Pattern.Matches

/-!
# What is left of an accepted value

Every text in a value that was accepted for a variable, be it a string or the name of a member, has passed the check
after its control characters were removed (`Validator.Harmless`). A value has no parts but those that were cleaned on
their own, each with as many levels left below it as there are levels above it less (`exists_clean_of_partAt`), so none
lies deeper than the deepest level.

Main statement: the parts of an accepted value are harmless and lie no deeper than allowed, it is written in no more
bytes than allowed, and it is accepted as it is (`validateValue_harmless`).
-/

namespace Stencil

/-! ## Parts and their levels -/

namespace Json.Value

/-- A part of a value and the level it lies on. The value itself lies on level zero. -/
inductive PartAt : Value → Nat → Value → Prop where
  | self (value : Value) : PartAt value 0 value
  | item {items : List Value} {item part : Value} {level : Nat} (hmem : item ∈ items) (hpart : PartAt item level part) :
    PartAt (.array items) (level + 1) part
  | member {members : List (Text × Value)} {member : Text × Value} {part : Value} {level : Nat}
    (hmem : member ∈ members) (hpart : PartAt member.2 level part) : PartAt (.object members) (level + 1) part

/-- The texts of a part: itself if it is a string, the names of its members if it is an object. -/
inductive HasText : Value → Text → Prop where
  | string (t : Text) : HasText (.string t) t
  | key {members : List (Text × Value)} {member : Text × Value} (hmem : member ∈ members) :
    HasText (.object members) member.1

end Json.Value

namespace Inspection

open Pattern Json

/-! ## Complete expression blocks -/

/-- What expression blocks begin and end with. -/
def blockEnds : List (Text × Text) :=
  [(['{', '{'], ['}', '}']), (['{', '%'], ['%', '}']), (['$', '{'], ['}']), (['#', '{'], ['}'])]

/-- A block of any text between its two ends. -/
def block (number : Nat) (opener closer : Text) : Pattern :=
  literal opener ++ .group number anything ++ literal closer

/-- A block matches where its opener stands and its closer follows. -/
lemma exists_mem_ends_block_iff {number : Nat} {opener closer : Text} {p : Place} {t : Text} :
    (∃ e, e ∈ (block number opener closer).ends p t) ↔ ∃ body behind, t = opener ++ body ++ closer ++ behind := by
  constructor
  · rintro ⟨⟨p3, behind⟩, hend⟩
    obtain ⟨p2, t2, hfront, hcloser⟩ := mem_ends_sequence.1 hend
    obtain ⟨p1, t1, hopener, hgroup⟩ := mem_ends_sequence.1 hfront
    obtain ⟨p2', hbody, -⟩ := mem_ends_group.1 hgroup
    obtain ⟨body, rfl, -⟩ := mem_ends_anything.1 hbody
    obtain ⟨rfl, -⟩ := mem_ends_literal.1 hopener
    obtain ⟨rfl, -⟩ := mem_ends_literal.1 hcloser
    exact ⟨body, behind, by simp only [List.append_assoc]⟩
  · rintro ⟨body, behind, rfl⟩
    have hopener : (p.after opener, body ++ closer ++ behind) ∈
        (literal opener).ends p (opener ++ body ++ closer ++ behind) :=
      mem_ends_literal.2 ⟨by simp only [List.append_assoc], rfl⟩
    have hbody : (_, closer ++ behind) ∈
        (Pattern.group number anything).ends (p.after opener) (body ++ closer ++ behind) :=
      mem_ends_group.2 ⟨_, mem_ends_anything.2 ⟨body, List.append_assoc _ _ _, rfl⟩, rfl⟩
    have hfront := mem_ends_sequence.2 ⟨_, _, hopener, hbody⟩
    exact ⟨_, mem_ends_sequence.2 ⟨_, _, hfront, mem_ends_literal.2 ⟨rfl, rfl⟩⟩⟩

/-- An expression block matches where one of its openers stands and its closer follows. -/
lemma ends_expressionBlock_ne_nil_iff {p : Place} {t : Text} :
    expressionBlock.ends p t ≠ [] ↔ ∃ ends ∈ blockEnds, ∃ body behind, t = ends.1 ++ body ++ ends.2 ++ behind := by
  have hblocks : expressionBlock = oneOfThese
      [block 1 ['{', '{'] ['}', '}'], block 2 ['{', '%'] ['%', '}'], block 3 ['$', '{'] ['}'],
        block 4 ['#', '{'] ['}']] := rfl
  rw [Ne, List.eq_nil_iff_forall_not_mem, not_forall_not, hblocks]
  simp only [mem_ends_oneOfThese, List.mem_cons, List.not_mem_nil, or_false, or_and_right, exists_or, exists_eq_left,
    exists_mem_ends_block_iff, blockEnds]

/-- Expression blocks are found in a text exactly if it has one of the openers with its closer somewhere behind. -/
lemma occursIn_expressionBlock_iff {t : Text} :
    expressionBlock.occursIn t = true ↔
      ∃ ends ∈ blockEnds, ∃ front body behind, t = front ++ (ends.1 ++ body ++ ends.2 ++ behind) := by
  rw [occursIn_eq_true_iff (by decide)]
  simp only [ends_expressionBlock_ne_nil_iff]
  constructor
  · rintro ⟨front, _, rfl, ends, hmem, body, behind, rfl⟩
    exact ⟨ends, hmem, front, body, behind, rfl⟩
  · rintro ⟨ends, hmem, front, body, behind, rfl⟩
    exact ⟨front, _, rfl, ends, hmem, body, behind, rfl⟩

namespace Validator

variable {v : Validator} {name : Text}

/-! ## Harmless texts -/

/-- A text as it may stand in a value: no control characters but tabs and line breaks, no code, no complete expression
block, and no scripts where markup is rejected. -/
structure Harmless (v : Validator) (t : Text) : Prop where
  controls : ∀ c ∈ t, Text.isControl c = true → c = '\t' ∨ c = '\n' ∨ c = '\r'
  code : ∀ rule ∈ TemplateInjection.rules, rule.occursIn t = false
  blocks : ∀ ends ∈ blockEnds, ∀ front body behind, t ≠ front ++ (ends.1 ++ body ++ ends.2 ++ behind)
  scripts : v.settings.rejectsMarkup = true → ∀ rule ∈ ScriptInjection.rules, rule.occursIn t = false

/-- No rule has a first match if and only if none occurs. -/
lemma firstMatch?_eq_none_iff {set : SignatureSet} (hleast : ∀ rule ∈ set.rules, 0 < rule.least) {t : Text} :
    set.firstMatch? t = none ↔ ∀ rule ∈ set.rules, rule.occursIn t = false := by
  simp only [SignatureSet.firstMatch?, List.findSome?_eq_none_iff, occursIn, Option.isSome_eq_false_iff,
    Option.isNone_iff_eq_none]
  exact forall₂_congr fun rule hrule => by rw [firstIn?_eq_find? (hleast rule hrule)]

/-- A text is accepted if no rule of injection and no expression block occurs in it, and no markup where it is
rejected. -/
lemma checkText_eq_ok_iff {t : Text} :
    v.checkText t = .ok () ↔
      (∀ rule ∈ TemplateInjection.rules, rule.occursIn t = false) ∧ expressionBlock.occursIn t = false ∧
        (v.settings.rejectsMarkup = true → ∀ rule ∈ ScriptInjection.rules, rule.occursIn t = false) := by
  have hcode : SignatureSet.templateInjection.firstMatch? t = none ↔
    ∀ rule ∈ TemplateInjection.rules, rule.occursIn t = false := firstMatch?_eq_none_iff (by decide)
  have hscripts : SignatureSet.scriptInjection.firstMatch? t = none ↔
    ∀ rule ∈ ScriptInjection.rules, rule.occursIn t = false := firstMatch?_eq_none_iff (by decide)
  rw [← hcode, ← hscripts, checkText]
  cases SignatureSet.templateInjection.firstMatch? t <;> cases expressionBlock.occursIn t <;>
    cases v.settings.rejectsMarkup <;> cases SignatureSet.scriptInjection.firstMatch? t <;> simp

lemma isControl_stripControls {t : Text} {c : Char} (h : c ∈ stripControls t) (hcontrol : Text.isControl c = true) :
    c = '\t' ∨ c = '\n' ∨ c = '\r' := by
  have hkept := (List.mem_filter.1 h).2
  rw [hcontrol] at hkept
  simpa [or_assoc] using hkept

/-- The texts that are left of cleaning are harmless. -/
lemma harmless_of_cleanText {t cleaned : Text} (h : v.cleanText t = .ok cleaned) : v.Harmless cleaned := by
  obtain ⟨hcheck, rfl⟩ := cleanText_eq_ok_iff.1 h
  obtain ⟨hcode, hblock, hscripts⟩ := checkText_eq_ok_iff.1 hcheck
  refine ⟨fun _ => isControl_stripControls, hcode, ?_, hscripts⟩
  rintro ends hmem front body behind heq
  have hoccurs := occursIn_expressionBlock_iff.2 ⟨ends, hmem, front, body, behind, heq⟩
  rw [hblock] at hoccurs
  exact Bool.false_ne_true hoccurs

/-! ## Harmless values -/

/-- Only arrays are cleaned into arrays. -/
lemma exists_of_clean_eq_array {room : Nat} {value : Value} {parts : List Value}
    (h : v.clean name room value = .ok (.array parts)) :
    ∃ items, List.Forall₂ (v.CleansItem name room) items parts := by
  cases value with
  | array items =>
    obtain ⟨parts', hparts, heq⟩ := clean_array_eq_ok_iff.1 h
    obtain rfl := Value.array.inj heq
    exact ⟨items, hparts⟩
  | object members =>
    obtain ⟨_, _, heq⟩ := clean_object_eq_ok_iff.1 h
    cases heq
  | null | bool | number | string => simp [clean, map_eq_ok_iff] at h

/-- Only objects are cleaned into objects, and every member left is what some member was cleaned into. -/
lemma exists_of_clean_eq_object {room : Nat} {value : Value} {cleaned : List (Text × Value)}
    (h : v.clean name room value = .ok (.object cleaned)) {entry : Text × Value} (hentry : entry ∈ cleaned) :
    ∃ member, v.CleansMember name room member entry := by
  cases value with
  | array items =>
    obtain ⟨_, _, heq⟩ := clean_array_eq_ok_iff.1 h
    cases heq
  | object members =>
    obtain ⟨entries, hentries, heq⟩ := clean_object_eq_ok_iff.1 h
    obtain rfl := Value.object.inj heq
    obtain ⟨member, -, hmember⟩ := exists_mem_of_forall₂ hentries.flip (Table.mem_of_mem_ofEntries hentry)
    exact ⟨member, hmember⟩
  | null | bool | number | string => simp [clean, map_eq_ok_iff] at h

/-- Every part of what was cleaned is what cleaning made of some value, with a level less for each level above it. -/
theorem exists_clean_of_partAt {cleaned part : Value} {level : Nat} (hpart : cleaned.PartAt level part) {room : Nat}
    {value : Value} (h : v.clean name room value = .ok cleaned) :
    level ≤ room ∧ ∃ origin, v.clean name (room - level) origin = .ok part := by
  induction hpart generalizing room value with
  | self part => exact ⟨Nat.zero_le room, value, h⟩
  | @item parts cleaned part level hmem _ ih =>
    obtain ⟨items, hparts⟩ := exists_of_clean_eq_array h
    obtain ⟨item, -, hroom, hclean⟩ := exists_mem_of_forall₂ hparts.flip hmem
    obtain ⟨hlevel, origin, horigin⟩ := ih hclean
    rw [Nat.sub_sub, Nat.add_comm 1 level] at horigin
    exact ⟨by omega, origin, horigin⟩
  | @member members cleaned part level hmem _ ih =>
    obtain ⟨member, -, hroom, hclean⟩ := exists_of_clean_eq_object h hmem
    obtain ⟨hlevel, origin, horigin⟩ := ih hclean
    rw [Nat.sub_sub, Nat.add_comm 1 level] at horigin
    exact ⟨by omega, origin, horigin⟩

/-- Every text in a cleaned value is harmless. -/
lemma harmless_of_hasText {room : Nat} {value cleaned : Value} (h : v.clean name room value = .ok cleaned) {t : Text}
    (ht : cleaned.HasText t) : v.Harmless t := by
  cases ht with
  | string t =>
    cases value with
    | string source =>
      rw [clean, map_eq_ok_iff] at h
      obtain ⟨text, htext, heq⟩ := h
      obtain rfl := Value.string.inj heq
      exact harmless_of_cleanText htext
    | array items =>
      obtain ⟨_, _, heq⟩ := clean_array_eq_ok_iff.1 h
      cases heq
    | object members =>
      obtain ⟨_, _, heq⟩ := clean_object_eq_ok_iff.1 h
      cases heq
    | null | bool | number => simp [clean] at h
  | key hmem =>
    obtain ⟨member, hkey, -⟩ := exists_of_clean_eq_object h hmem
    exact harmless_of_cleanText hkey

/-- What an accepted value is like: its strings and the names of its members are harmless, no part lies deeper than
level 32, it is no longer in writing than allowed, and it is accepted as it is. -/
theorem validateValue_harmless {value cleaned : Value} (h : v.validateValue name value = .ok cleaned) :
    (∀ level part, cleaned.PartAt level part → level ≤ 32 ∧ ∀ t, part.HasText t → v.Harmless t) ∧
      Text.byteLength cleaned.compact ≤ v.settings.maxVariableBytes ∧ v.validateValue name cleaned = .ok cleaned := by
  obtain ⟨-, hsize, hclean⟩ := validateValue_eq_ok_iff.1 h
  refine ⟨fun level part hpart => ?_, Nat.le_trans (byteLength_clean_le hclean) hsize, validateValue_validateValue h⟩
  obtain ⟨hlevel, origin, horigin⟩ := exists_clean_of_partAt hpart hclean
  exact ⟨hlevel, fun t ht => harmless_of_hasText horigin ht⟩

/-- An object of which two names fall together, in a validator that rejects markup. -/
theorem validateValue_harmless_merging :
    ∃ v : Validator, ∃ cleaned, v.settings.rejectsMarkup = true ∧
      v.validateValue "order" (.object [("a", .array [.null]), ("a\x00", .string "x\x07\n")]) = .ok cleaned ∧
      (∀ level part, cleaned.PartAt level part → level ≤ 32 ∧ ∀ t, part.HasText t → v.Harmless t) ∧
      Text.byteLength cleaned.compact ≤ v.settings.maxVariableBytes ∧
      v.validateValue "order" cleaned = .ok cleaned := by
  obtain ⟨cleaned, h⟩ := exists_eq_ok_of_isOk (x := Validator.validateValue
    ⟨⟨0, 40, .warning, true⟩, PersonalData.Detector.none⟩ "order"
      (.object [("a", .array [.null]), ("a\x00", .string "x\x07\n")])) (by decide +kernel)
  exact ⟨_, cleaned, rfl, h, validateValue_harmless h⟩

end Validator

end Inspection

end Stencil
