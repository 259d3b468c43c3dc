import Stencil.Markup.Sanitizer
import Stencil.Proofs.Markup.Decoding
import Stencil.Proofs.Text.Letters

/-!
# The tags of a sanitised document

A sanitised document holds no markup but tags of two written forms, made of nothing but what is allowed. The forms are
said here without the functions that write them: `AttributeForm` and `TagForm` describe texts.

* Text between tags has lost its `<` (`lt_not_mem_neutralize`), so a `<` of the document stands in a tag.
* A tag that is kept is written in one of the forms (`tagForm_of_ofMatch?`), in which a `<` stands only in front.
* Together: every `<` of a sanitised document begins a tag.
-/

namespace Stencil.Markup

open Pattern

/-! ## The two forms -/

/-- The characters that the value of an attribute is never written with. -/
def valueBreakers : Text := ['<', '>', '"', '\'', '=', '\x60']

lemma forall_mem_valueBreakers {P : Char → Prop} :
    (∀ c ∈ valueBreakers, P c) ↔ P '<' ∧ P '>' ∧ P '"' ∧ P '\'' ∧ P '=' ∧ P '\x60' := by
  simp [valueBreakers]

/-- An attribute in writing: an allowed name, none of an event, alone or with a value between double quotes. An address
is safe for a reader who decodes its entities. -/
inductive AttributeForm : Text → Prop
  | bare {name : Text} (allowed : name ∈ allowedAttributes) (noEvent : ¬ ['o', 'n'] <+: name) :
    AttributeForm (' ' :: name)
  | valued {name value : Text} (allowed : name ∈ allowedAttributes) (noEvent : ¬ ['o', 'n'] <+: name)
    (unbroken : ∀ c ∈ value, c ∉ valueBreakers)
    (safe : name ∈ addressAttributes → isSafeAddress (decodeEntities value) = true) :
    AttributeForm (' ' :: name ++ ['=', '"'] ++ value ++ ['"'])

/-- The name of a tag that may stand in a document when some tags are allowed besides the default ones. -/
structure TagName (extra : List Text) (name : Text) : Prop where
  lower : ∃ c rest, name = c :: rest ∧ c.isLower = true ∧ ∀ d ∈ rest, d.isLower = true ∨ d.isDigit = true
  listed : name ∈ defaultTags ∨ name ∈ extra.map Text.toLower
  permitted : name ∉ forbiddenTags

/-- A tag in writing. -/
inductive TagForm (extra : List Text) : Text → Prop
  | closing {name : Text} (hname : TagName extra name) : TagForm extra (['<', '/'] ++ name ++ ['>'])
  | opening {name : Text} (hname : TagName extra name) {attributes : List Text}
    (hattributes : ∀ a ∈ attributes, AttributeForm a) (slash : Bool) :
    TagForm extra ('<' :: name ++ attributes.flatten ++ (if slash then [' ', '/'] else []) ++ ['>'])

/-! ## A tag begins with its only `<` and ends with its only `>` -/

/-- The characters that a tag has around it. -/
def brackets : Text := ['<', '>']

lemma forall_mem_brackets {P : Char → Prop} : (∀ c ∈ brackets, P c) ↔ P '<' ∧ P '>' := by simp [brackets]

/-- No bracket stands in an attribute. -/
lemma AttributeForm.not_mem {a : Text} (h : AttributeForm a) : ∀ c ∈ brackets, c ∉ a := by
  have hnames : ∀ c ∈ brackets, ∀ name ∈ allowedAttributes, c ∉ name := forall_mem_brackets.2 (by decide)
  have hsigns : ∀ c ∈ brackets, c ≠ ' ' ∧ c ≠ '=' ∧ c ≠ '"' ∧ c ∈ valueBreakers := forall_mem_brackets.2 (by decide)
  intro c hc hmem
  obtain ⟨hspace, hequals, hquote, hbreaker⟩ := hsigns c hc
  cases h with
  | bare allowed _ =>
    rcases List.mem_cons.1 hmem with heq | hmem
    · exact hspace heq
    · exact hnames c hc _ allowed hmem
  | @valued name value allowed _ unbroken _ =>
    simp only [List.cons_append, List.mem_cons, List.mem_append, List.not_mem_nil, or_false] at hmem
    rcases hmem with heq | ((hmem | heq | heq) | hmem) | heq
    · exact hspace heq
    · exact hnames c hc _ allowed hmem
    · exact hequals heq
    · exact hquote heq
    · exact unbroken _ hmem hbreaker
    · exact hquote heq

/-- The attributes of a tag and the slash behind them hold no bracket. -/
lemma AttributeForm.not_mem_flatten {attributes : List Text} (h : ∀ a ∈ attributes, AttributeForm a) (slash : Bool) :
    ∀ c ∈ brackets, c ∉ attributes.flatten ++ (if slash then [' ', '/'] else []) := by
  intro c hc hmem
  rcases List.mem_append.1 hmem with hmem | hmem
  · obtain ⟨a, ha, hmem⟩ := List.mem_flatten.1 hmem
    exact (h a ha).not_mem c hc hmem
  · have hall : ∀ c ∈ brackets, c ∉ [' ', '/'] := forall_mem_brackets.2 (by decide)
    cases slash with
    | true => exact hall c hc hmem
    | false => exact List.not_mem_nil hmem

/-- No bracket stands in a tag name. -/
lemma TagName.not_mem {extra : List Text} {name : Text} (h : TagName extra name) : ∀ c ∈ brackets, c ∉ name := by
  have hlower : ∀ c ∈ brackets, c.isLower = false ∧ c.isDigit = false := forall_mem_brackets.2 (by decide)
  intro c hc hmem
  obtain ⟨hletter, hdigit⟩ := hlower c hc
  obtain ⟨d, rest, rfl, hd, hrest⟩ := h.lower
  rcases List.mem_cons.1 hmem with rfl | hmem
  · exact absurd hd (by simp [hletter])
  · exact absurd (hrest _ hmem) (by simp [hletter, hdigit])

/-- A tag is a pair of brackets without any bracket inside. -/
lemma TagForm.exists_body {extra : List Text} {w : Text} (h : TagForm extra w) :
    ∃ body, w = '<' :: body ++ ['>'] ∧ ∀ c ∈ brackets, c ∉ body := by
  cases h with
  | @closing name hname =>
    refine ⟨'/' :: name, rfl, fun c hc => ?_⟩
    have hslash : ∀ c ∈ brackets, c ≠ '/' := forall_mem_brackets.2 (by decide)
    simp [hslash c hc, hname.not_mem c hc]
  | @opening name hname attributes hattributes slash =>
    refine ⟨name ++ (attributes.flatten ++ (if slash then [' ', '/'] else [])), by simp, fun c hc => ?_⟩
    rw [List.mem_append, not_or]
    exact ⟨hname.not_mem c hc, AttributeForm.not_mem_flatten hattributes slash c hc⟩

lemma TagForm.eq_cons {extra : List Text} {w : Text} (h : TagForm extra w) :
    ∃ body, w = '<' :: body ∧ '<' ∉ body := by
  obtain ⟨body, rfl, hnone⟩ := h.exists_body
  have := hnone '<' List.mem_cons_self
  exact ⟨body ++ ['>'], rfl, by simp [this]⟩

/-- In a row of texts that are tags or hold no `<`, each `<` begins a tag. -/
lemma exists_tagForm_of_flatten_eq {extra : List Text} {pieces : List Text}
    (hpieces : ∀ w ∈ pieces, '<' ∉ w ∨ TagForm extra w) {front behind : Text}
    (h : pieces.flatten = front ++ '<' :: behind) :
    ∃ tag rest, '<' :: behind = tag ++ rest ∧ TagForm extra tag := by
  induction pieces generalizing front with
  | nil => simp at h
  | cons w pieces ih =>
    have hrest := fun w' hw' => hpieces w' (List.mem_cons_of_mem _ hw')
    rw [List.flatten_cons, List.append_eq_append_iff] at h
    rcases h with ⟨front', -, h⟩ | ⟨w', rfl, h⟩
    · exact ih hrest h
    · rcases List.cons_eq_append_iff.1 h with ⟨rfl, h⟩ | ⟨w'', rfl, h⟩
      · exact ih hrest (show pieces.flatten = [] ++ '<' :: behind from h.symm)
      · rcases hpieces _ List.mem_cons_self with hnone | htag
        · exact absurd (List.mem_append_right _ List.mem_cons_self) hnone
        · -- the only `<` of a tag is its first character, so nothing stands in front
          obtain ⟨body, hbody, hnone⟩ := htag.eq_cons
          cases front with
          | nil => exact ⟨'<' :: w'', pieces.flatten, h, htag⟩
          | cons c front =>
            rw [List.cons_append, List.cons.injEq] at hbody
            rw [← hbody.2] at hnone
            exact absurd (List.mem_append_right _ List.mem_cons_self) hnone

/-! ## What is kept has one of the forms -/

/-- No escape has a character in it that could break a value. -/
lemma Attribute.not_mem_escapeChar {c d : Char} (hc : c ∈ valueBreakers) : c ∉ escapeChar d := by
  rcases Attribute.escapeChar_cases d with ⟨hsame, -⟩ | hentity
  · have hall : ∀ c ∈ valueBreakers, escapeChar c ≠ [c] := forall_mem_valueBreakers.2 (by decide)
    rw [hsame, List.mem_singleton]
    rintro rfl
    exact hall c hc hsame
  · have hall : ∀ c ∈ valueBreakers, ∀ pair ∈ writtenEntities, c ∉ pair.1 := forall_mem_valueBreakers.2 (by decide)
    exact hall c hc _ hentity

/-- An escaped value does not break out of its quotes. -/
lemma Attribute.not_mem_escapeValue {c : Char} (hc : c ∈ valueBreakers) (value : Text) : c ∉ escapeValue value := by
  intro hmem
  rcases (recoded_breakSchemes _).mem hmem with hmem | hmem
  · obtain ⟨d, -, hd⟩ := List.mem_flatMap.1 hmem
    exact Attribute.not_mem_escapeChar hc hd
  · have hall : ∀ c ∈ valueBreakers, c ∉ "&#58;".toList := forall_mem_valueBreakers.2 (by decide)
    exact hall c hc hmem

/-- An attribute that is kept is written in the form of one. -/
lemma attributeForm_of_ofMatch? {m : Match} {a : Attribute} (h : Attribute.ofMatch? m = some a) :
    AttributeForm a.text := by
  -- no allowed attribute is an event handler
  have hevents : ∀ name ∈ allowedAttributes, ¬ ['o', 'n'] <+: name := by decide
  unfold Attribute.ofMatch? at h
  dsimp only at h
  split at h
  · simp at h
  · rename_i hname
    simp only [Bool.or_eq_true, Bool.not_eq_true', not_or, Bool.not_eq_false, List.contains_iff_mem] at hname
    obtain ⟨-, hname⟩ := hname
    split at h
    · simp at h
    · rename_i hsafe
      obtain rfl := Option.some.inj h
      unfold Attribute.text
      dsimp only
      split
      · exact .bare hname (hevents _ hname)
      · rename_i value hvalue
        refine .valued hname (hevents _ hname) (fun c hc hbreaker => Attribute.not_mem_escapeValue hbreaker _ hc) ?_
        intro haddress
        rw [Attribute.decodeEntities_escapeValue]
        simp only [hvalue, Bool.and_eq_true, List.contains_iff_mem, haddress, Option.any_some, Bool.not_eq_true',
          true_and, Bool.not_eq_false] at hsafe
        exact hsafe

/-- The name that is found in a tag is a letter with letters and digits behind it. -/
lemma name_of_shape {position : Nat} {previous : Option Char} {t : Text} {m : Match}
    (h : Tag.shape.matchAt? position previous t = some m) :
    ∃ c rest, m.group 2 = c :: rest ∧ c.isAlpha = true ∧ ∀ d ∈ rest, d.isAlphanum = true := by
  obtain ⟨p', t', hmem, -, hcaptured⟩ := exists_end_of_matchAt? h
  obtain ⟨p1, t1, hmem, hclose⟩ := mem_ends_sequence.1 hmem
  obtain ⟨p2, t2, hmem, hrest⟩ := mem_ends_sequence.1 hmem
  obtain ⟨p3, t3, -, hname⟩ := mem_ends_sequence.1 hmem
  obtain ⟨q, hq, rfl⟩ := mem_ends_group.1 hname
  obtain ⟨q', s, hfirst, hmore⟩ := mem_ends_sequence.1 hq
  obtain ⟨c, hc, rfl, rfl⟩ := mem_ends_char.1 hfirst
  obtain ⟨more, halnum, rfl, rfl⟩ := mem_ends_many.1 hmore
  obtain ⟨r, hr, rfl⟩ := mem_ends_group.1 hrest
  obtain ⟨others, -, rfl, rfl⟩ := mem_ends_many.1 hr
  obtain ⟨rfl, rfl⟩ := mem_ends_exactly.1 hclose
  refine ⟨c, more, ?_, hc, halnum⟩
  rw [Match.group, Match.group?, hcaptured]
  simp only [Place.captured_next, Place.captured_remember, Place.captured_after, List.map_cons]
  exact Capture.text_eq (w := c :: more) (by simp; omega)

/-- In small letters, a letter or digit is a small letter or a digit. -/
lemma isLower_or_isDigit_toLower {c : Char} (h : c.isAlphanum = true) :
    c.toLower.isLower = true ∨ c.toLower.isDigit = true := by
  rw [Char.isAlphanum, Bool.or_eq_true] at h
  rcases h with h | h
  · exact .inl (Text.isLower_toLower h)
  · by_cases hupper : c.isUpper = true
    · exact .inl (Text.isLower_toLower (Text.isAlpha_iff.2 (.inl hupper)))
    · exact .inr (by rw [Text.toLower_of_not_isUpper hupper, h])

/-- A name that a sanitiser allows, if it was found in a tag. -/
lemma tagName_of_mem_allowed {extra : List Text} {m : Match} {position : Nat} {previous : Option Char} {t : Text}
    (hm : Tag.shape.matchAt? position previous t = some m)
    (hname : Text.toLower (m.group 2) ∈ (Sanitizer.ofExtraTags extra).allowed) :
    TagName extra (Text.toLower (m.group 2)) := by
  obtain ⟨hlisted, hpermitted⟩ := List.mem_filter.1 hname
  refine ⟨?_, List.mem_append.1 hlisted, by simpa using hpermitted⟩
  obtain ⟨c, rest, hgroup, hc, hrest⟩ := name_of_shape hm
  refine ⟨c.toLower, rest.map Char.toLower, by rw [hgroup]; rfl, Text.isLower_toLower hc, ?_⟩
  intro d hd
  obtain ⟨d', hd', rfl⟩ := List.mem_map.1 hd
  exact isLower_or_isDigit_toLower (hrest d' hd')

/-- A tag that is kept is written in the form of one. -/
theorem tagForm_of_ofMatch? {extra : List Text} {m : Match} {position : Nat} {previous : Option Char} {t : Text}
    {tag : Tag} (hm : Tag.shape.matchAt? position previous t = some m)
    (h : Tag.ofMatch? (Sanitizer.ofExtraTags extra).allowed m = some tag) : TagForm extra tag.text := by
  unfold Tag.ofMatch? at h
  dsimp only at h
  split at h
  · simp at h
  · rename_i hname
    have hname := tagName_of_mem_allowed hm (by simpa using hname)
    split at h
    · obtain rfl := Option.some.inj h
      exact .closing hname
    · obtain rfl := Option.some.inj h
      rw [Tag.text, List.flatMap_def]
      refine .opening hname ?_ _
      intro a ha
      obtain ⟨kept, hkept, rfl⟩ := List.mem_map.1 ha
      obtain ⟨found, -, hfound⟩ := List.mem_filterMap.1 hkept
      exact attributeForm_of_ofMatch? hfound

/-! ## The whole document -/

/-- What a sanitiser writes for a part of a document. -/
def Sanitizer.written (s : Sanitizer) : Part → Text
  | .plain plain => neutralize plain
  | .found m => ((Tag.ofMatch? s.allowed m).map Tag.text).getD []

lemma Sanitizer.written_found (s : Sanitizer) (m : Match) :
    s.written (.found m) = ((Tag.ofMatch? s.allowed m).map Tag.text).getD [] := rfl

lemma Sanitizer.rebuild_eq (s : Sanitizer) (t : Text) : s.rebuild t = ((Tag.shape.parts t).map s.written).flatten :=
  List.flatMap_def

/-- What is written for a part of a document is a tag, or holds no `<`. -/
lemma written_part {extra : List Text} {t : Text} {part : Part} (hpart : part ∈ Tag.shape.parts t) :
    '<' ∉ (Sanitizer.ofExtraTags extra).written part ∨ TagForm extra ((Sanitizer.ofExtraTags extra).written part) := by
  cases part with
  | plain plain => exact .inl (lt_not_mem_neutralize plain)
  | found m =>
    obtain ⟨position, previous, s, hm⟩ := exists_matchAt?_of_mem_parts hpart
    rw [Sanitizer.written_found]
    cases htag : Tag.ofMatch? (Sanitizer.ofExtraTags extra).allowed m with
    | none => exact .inl List.not_mem_nil
    | some tag => exact .inr (tagForm_of_ofMatch? hm htag)

/-- Every `<` of a sanitised document begins a tag of one of the two forms, whatever the document was and whatever tags
were allowed. -/
theorem exists_tagForm_of_sanitize_eq (extra : List Text) (html front behind : Text)
    (h : (Sanitizer.ofExtraTags extra).sanitize html = front ++ '<' :: behind) :
    ∃ tag rest, '<' :: behind = tag ++ rest ∧ TagForm extra tag := by
  rw [Sanitizer.sanitize, Sanitizer.rebuild_eq] at h
  refine exists_tagForm_of_flatten_eq ?_ h
  intro w hw
  obtain ⟨part, hpart, rfl⟩ := List.mem_map.1 hw
  exact written_part hpart

/-- A link whose address hides its scheme keeps its tag and loses the address. -/
theorem exists_tagForm_hidden_scheme :
    (Sanitizer.ofExtraTags ["Section"]).sanitize "<seCtion><a href='javascript&colon;x' title=\"&lt;b&quot;\">" =
        "<section>".toList ++ '<' :: "a title=\"&lt;b&quot;\">".toList ∧
      ∃ tag rest, '<' :: "a title=\"&lt;b&quot;\">".toList = tag ++ rest ∧ TagForm ["Section"] tag := by
  have h : (Sanitizer.ofExtraTags ["Section"]).sanitize
      "<seCtion><a href='javascript&colon;x' title=\"&lt;b&quot;\">" =
        "<section>".toList ++ '<' :: "a title=\"&lt;b&quot;\">".toList := by decide +kernel
  exact ⟨h, exists_tagForm_of_sanitize_eq _ _ _ _ h⟩

end Stencil.Markup
