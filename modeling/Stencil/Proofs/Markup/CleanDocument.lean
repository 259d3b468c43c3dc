import Stencil.Proofs.Markup.Reading
import Stencil.Proofs.Markup.Removal

/-!
# Clean documents

A document is clean if it is written as a sanitiser writes: text that names no script, and tags with allowed names and
attributes, whose values are escaped. Here is what a sanitiser leaves alone.

* Nothing is removed from a clean document, since each of its `<` begins a tag that is allowed
  (`CleanDocument.settled`).
* Each tag is found where it was written, with the attributes that were written, and is written again as it was
  (`CleanTag.exists_match`).

Main statement: a clean document is handed out as it is (`sanitize_of_cleanDocument`).
-/

namespace Stencil.Markup

open Pattern

/-! ## What is clean -/

/-- An attribute that is clean: an allowed name, alone or with an escaped value between double quotes. The value of an
address is safe. -/
inductive CleanAttribute : Text → Prop
  | bare {name : Text} (allowed : name ∈ allowedAttributes) : CleanAttribute (' ' :: name)
  | valued {name : Text} (allowed : name ∈ allowedAttributes) (value : Text)
    (safe : name ∈ addressAttributes → isSafeAddress value = true) :
    CleanAttribute (' ' :: name ++ ['=', '"'] ++ Attribute.escapeValue value ++ ['"'])

/-- A tag that is clean when some tags are allowed besides the default ones: an allowed name, and clean attributes if it
is no closing tag. -/
inductive CleanTag (extra : List Text) : Text → Prop
  | closing {name : Text} (hname : TagName extra name) : CleanTag extra (['<', '/'] ++ name ++ ['>'])
  | opening {name : Text} (hname : TagName extra name) {attributes : List Text}
    (hattributes : ∀ a ∈ attributes, CleanAttribute a) (slash : Bool) :
    CleanTag extra ('<' :: name ++ attributes.flatten ++ (if slash then [' ', '/'] else []) ++ ['>'])

/-- Text that is clean: no tag begins in it, and it names no script. -/
structure CleanChunk (chunk : Text) : Prop where
  bracket : '<' ∉ chunk
  neutral : Neutral chunk

/-- A document that is clean: clean text, with clean tags in between. -/
inductive CleanDocument (extra : List Text) : Text → Prop
  | chunk {chunk : Text} (hchunk : CleanChunk chunk) : CleanDocument extra chunk
  | tagged {chunk tag rest : Text} (hchunk : CleanChunk chunk) (htag : CleanTag extra tag)
    (hrest : CleanDocument extra rest) : CleanDocument extra (chunk ++ (tag ++ rest))

/-! ## Text -/

/-- Clean text is not changed. -/
lemma CleanChunk.neutralize_eq {chunk : Text} (h : CleanChunk chunk) : neutralize chunk = chunk := by
  have hbrackets : (chunk.flatMap fun c => if c == '<' then "&lt;".toList else [c]) = chunk := by
    have hsame : ∀ c ∈ chunk, (if c == '<' then "&lt;".toList else [c]) = [c] := fun c hc => by
      rw [if_neg]
      rw [beq_iff_eq]
      rintro rfl
      exact h.bracket hc
    rw [List.flatMap_congr hsame]
    exact List.flatMap_singleton' chunk
  obtain ⟨hschemes, hevents⟩ := h.neutral
  rw [neutralize, hbrackets, breakSchemes, replaceAll_of_occursIn_eq_false hschemes, breakEvents,
    replaceAll_of_occursIn_eq_false hevents]

/-! ## Attributes -/

/-- A clean attribute has the form of an attribute that is kept. -/
lemma CleanAttribute.attributeForm {a : Text} (h : CleanAttribute a) : AttributeForm a := by
  have hevents : ∀ name ∈ allowedAttributes, ¬ ['o', 'n'] <+: name := by decide
  cases h with
  | bare allowed => exact .bare allowed (hevents _ allowed)
  | valued allowed value safe =>
    refine .valued allowed (hevents _ allowed) (fun c hc hbreaker => Attribute.not_mem_escapeValue hbreaker value hc) ?_
    rwa [Attribute.decodeEntities_escapeValue]

namespace Attribute

lemma isName_of_mem {name : Text} (h : name ∈ allowedAttributes) : IsName name := by
  have hall : ∀ name ∈ allowedAttributes, name.head?.any isNameHead = true ∧ name.tail.all isNameChar = true := by
    decide
  obtain ⟨hhead, htail⟩ := hall _ h
  cases name with
  | nil => exact absurd hhead Bool.false_ne_true
  | cons c rest => exact ⟨c, rest, rfl, hhead, List.all_eq_true.1 htail⟩

/-- An attribute that is found by an allowed name is kept if it holds no unsafe address. -/
lemma ofMatch?_eq_some {m : Match} {name : Text} {value : Option Text} (hname : m.group 1 = name)
    (hvalue : (valueOf m).map decodeEntities = value) (hallowed : name ∈ allowedAttributes)
    (hsafe : name ∈ addressAttributes → ∀ v ∈ value, isSafeAddress v = true) : ofMatch? m = some ⟨name, value⟩ := by
  have hlower : ∀ name ∈ allowedAttributes, Text.toLower name = name ∧ name.take 2 ≠ ['o', 'n'] := by decide
  obtain ⟨hsame, hevent⟩ := hlower _ hallowed
  have hkept : ¬ (addressAttributes.contains name && value.any (!isSafeAddress ·)) = true := by
    simp only [Bool.and_eq_true, List.contains_iff_mem, not_and, Bool.not_eq_true]
    intro haddress
    cases value with
    | none => rfl
    | some v => simp [hsafe haddress v rfl]
  unfold ofMatch?
  rw [hname, hsame, hvalue, if_neg (by simp [hevent, hallowed]), if_neg hkept]

lemma isBlank_of_isNameHead {c : Char} (h : isNameHead c = true) : Text.isBlank c = false := by
  simp only [isNameHead, Bool.or_eq_true, beq_iff_eq] at h
  rcases h with (halpha | rfl) | rfl
  · exact Text.isBlank_of_isAlpha halpha
  · decide
  · decide

/-- What may stand behind an attribute: nothing, or a blank and a sign that is neither a blank nor an equals sign. -/
def Ends (behind : Text) : Prop := behind = [] ∨ ∃ c rest, behind = ' ' :: c :: rest ∧ Text.isBlank c = false ∧ c ≠ '='

lemma Ends.stops {behind : Text} (h : Ends behind) : Stops isNameChar behind := by
  rcases h with rfl | ⟨c, rest, rfl, -⟩
  · exact fun c hc => nomatch hc
  · exact stops_cons (by decide) _

lemma Ends.head?_ne {behind : Text} (h : Ends behind) : (behind.dropWhile Text.isBlank).head? ≠ some '=' := by
  rcases h with rfl | ⟨c, rest, rfl, hc, hne⟩
  · exact nofun
  · rw [List.dropWhile_cons_of_pos (by decide), List.dropWhile_cons_of_neg (by simp [hc])]
    simpa using hne

end Attribute

open Attribute

/-- A clean attribute is found behind its blank, and written again as it was. -/
theorem CleanAttribute.exists_match {a : Text} (h : CleanAttribute a) :
    ∃ c rest, a = ' ' :: c :: rest ∧ isNameHead c = true ∧
      ∀ {behind : Text}, Ends behind → ∀ (position : Nat) (previous : Option Char), ∃ m,
        Attribute.shape.matchAt? position previous (c :: rest ++ behind) = some m ∧ m.text = c :: rest ∧
          ((ofMatch? m).map Attribute.text).getD [] = a := by
  -- with or without a value, the attribute is found as far as it was written, and kept as it was
  cases h with
  | @bare name allowed =>
    obtain ⟨c, rest, hcons, hc, hrest⟩ := isName_of_mem allowed
    refine ⟨c, rest, by rw [hcons], hc, fun {behind} hbehind position previous => ?_⟩
    rw [← hcons]
    refine ⟨_, matchAt?_bare (isName_of_mem allowed) hbehind.stops hbehind.head?_ne position previous, rfl, ?_⟩
    have hkept : ofMatch? ⟨position, name, [(1, name)]⟩ = some ⟨name, none⟩ := ofMatch?_eq_some rfl rfl allowed nofun
    rw [hkept]
    rfl
  | @valued name allowed value safe =>
    obtain ⟨c, rest, hcons, hc, hrest⟩ := isName_of_mem allowed
    have hquote := not_mem_escapeValue (c := '"') (by decide) value
    refine ⟨c, rest ++ ['=', '"'] ++ escapeValue value ++ ['"'], by rw [hcons]; simp, hc, ?_⟩
    intro behind _ position previous
    have hsource : c :: (rest ++ ['=', '"'] ++ escapeValue value ++ ['"']) =
        name ++ ['=', '"'] ++ escapeValue value ++ ['"'] := by rw [hcons]; simp
    rw [hsource]
    refine ⟨_, matchAt?_valued (isName_of_mem allowed) hquote position previous behind, rfl, ?_⟩
    have hkept : ofMatch? ⟨position, name ++ ['=', '"'] ++ escapeValue value ++ ['"'],
        [(2, escapeValue value), (1, name)]⟩ = some ⟨name, some value⟩ :=
      ofMatch?_eq_some rfl (congrArg some (decodeEntities_escapeValue value)) allowed
        fun haddress v hv => Option.some.inj hv ▸ safe haddress
    rw [hkept]
    rfl

/-- What stands in a clean tag behind its name. -/
def inside (attributes : List Text) (slash : Bool) : Text := attributes.flatten ++ (if slash then [' ', '/'] else [])

lemma inside_cons (a : Text) (attributes : List Text) (slash : Bool) :
    inside (a :: attributes) slash = a ++ inside attributes slash := by
  rw [inside, inside, List.flatten_cons, List.append_assoc]

/-- Before each attribute and before the end of the tag, the attribute in front has ended. -/
lemma ends_inside {attributes : List Text} (h : ∀ a ∈ attributes, CleanAttribute a) (slash : Bool) :
    Ends (inside attributes slash) := by
  cases attributes with
  | nil =>
    cases slash with
    | false => exact .inl rfl
    | true => exact .inr ⟨'/', [], rfl, by decide, by decide⟩
  | cons a attributes =>
    obtain ⟨c, rest, rfl, hc, -⟩ := (h a List.mem_cons_self).exists_match
    rw [inside_cons]
    refine .inr ⟨c, rest ++ inside attributes slash, rfl, isBlank_of_isNameHead hc, ?_⟩
    rintro rfl
    exact absurd hc (by decide)

/-- The attributes of a clean tag are written again as they were. -/
lemma keptText_inside {attributes : List Text} (h : ∀ a ∈ attributes, CleanAttribute a) (slash : Bool)
    (position : Nat) (previous : Option Char) :
    keptText (partsFrom Attribute.shape 0 position previous (inside attributes slash)) = attributes.flatten := by
  induction attributes generalizing position previous with
  | nil =>
    cases slash with
    | false => rfl
    | true =>
      show keptText (partsFrom Attribute.shape 0 position previous [' ', '/']) = []
      rw [keptText_of_matchAt?_eq_none (matchAt?_shape_eq_none (by decide) _ _ _),
        keptText_of_matchAt?_eq_none (matchAt?_shape_eq_none (by decide) _ _ _)]
      rfl
  | cons a attributes ih =>
    obtain ⟨ha, hattributes⟩ := List.forall_mem_cons.1 h
    obtain ⟨c, rest, rfl, -, hfound⟩ := ha.exists_match
    obtain ⟨m, hm, htext, hkept⟩ := hfound (ends_inside hattributes slash) (position + 1) (some ' ')
    rw [inside_cons, List.cons_append, keptText_of_matchAt?_eq_none (matchAt?_shape_eq_none (by decide) _ _ _),
      partsFrom_of_matchAt? hm htext (List.cons_ne_nil c rest), keptText_found, hkept, ih hattributes,
      List.flatten_cons]

/-! ## Tags -/

lemma CleanTag.tagForm {extra : List Text} {tag : Text} (h : CleanTag extra tag) : TagForm extra tag := by
  cases h with
  | closing hname => exact .closing hname
  | opening hname hattributes slash => exact .opening hname (fun a ha => (hattributes a ha).attributeForm) slash

lemma TagName.isName {extra : List Text} {name : Text} (h : TagName extra name) : Tag.IsName name := by
  obtain ⟨c, rest, rfl, hc, hrest⟩ := h.lower
  refine ⟨c, rest, rfl, Text.isAlpha_iff.2 (.inr hc), fun d hd => ?_⟩
  rw [Char.isAlphanum, Bool.or_eq_true]
  exact (hrest d hd).imp_left fun hlower => Text.isAlpha_iff.2 (.inr hlower)

lemma TagName.toLower_eq {extra : List Text} {name : Text} (h : TagName extra name) : Text.toLower name = name := by
  rw [Text.toLower, List.map_congr_left fun c hc => Text.toLower_of_not_isUpper
    (Text.not_isUpper_of_isLower_or_isDigit (h.isLower_or_isDigit c hc))]
  exact List.map_id' name

lemma TagName.mem_allowed {extra : List Text} {name : Text} (h : TagName extra name) :
    name ∈ (Sanitizer.ofExtraTags extra).allowed :=
  List.mem_filter.2 ⟨List.mem_append.2 h.listed, by simpa using h.permitted⟩

/-- Trimming takes nothing away behind a sign that is no blank. -/
lemma getLast?_trimEnd_concat {c : Char} (hc : Text.isBlank c = false) (front : Text) :
    (Text.trimEnd (front ++ [c])).getLast? = some c := by
  rw [Text.trimEnd, List.reverse_append, List.reverse_singleton, List.singleton_append,
    List.dropWhile_cons_of_neg (by simp [hc]), List.reverse_cons, List.getLast?_concat]

/-- A clean attribute ends with its name or with a quote. -/
lemma CleanAttribute.exists_last {a : Text} (h : CleanAttribute a) :
    ∃ front c, a = front ++ [c] ∧ Text.isBlank c = false ∧ c ≠ '/' := by
  have hall : ∀ name ∈ allowedAttributes, name.getLast?.any (fun c => !Text.isBlank c && c != '/') = true := by decide
  cases h with
  | @bare name allowed =>
    have hlast := hall _ allowed
    cases hc : name.getLast? with
    | none => simp [hc] at hlast
    | some c =>
      obtain ⟨front, rfl⟩ := List.getLast?_eq_some_iff.1 hc
      exact ⟨' ' :: front, c, rfl, by simpa [hc] using hlast⟩
  | valued => exact ⟨_, '"', rfl, by decide, by decide⟩

lemma not_mem_inside {attributes : List Text} (h : ∀ a ∈ attributes, CleanAttribute a) (slash : Bool) :
    ∀ c ∈ brackets, c ∉ inside attributes slash :=
  AttributeForm.not_mem_flatten (fun a ha => (h a ha).attributeForm) slash

/-- Behind the name of a tag stands no letter and no digit. -/
lemma stops_inside {attributes : List Text} (h : ∀ a ∈ attributes, CleanAttribute a) (slash : Bool) (behind : Text) :
    Stops Char.isAlphanum (inside attributes slash ++ '>' :: behind) := by
  cases attributes with
  | nil => cases slash <;> exact stops_cons (by decide) _
  | cons a attributes =>
    obtain ⟨c, rest, rfl, -⟩ := (h a List.mem_cons_self).exists_match
    exact stops_cons (by decide) _

/-- The slash of a tag without an end is seen if it is there. -/
lemma slash_of_cleanAttributes {attributes : List Text} (h : ∀ a ∈ attributes, CleanAttribute a) (slash : Bool) :
    ((Text.trimEnd (inside attributes slash)).getLast? == some '/') = slash := by
  unfold inside
  cases slash with
  | true =>
    have hsplit : attributes.flatten ++ [' ', '/'] = (attributes.flatten ++ [' ']) ++ ['/'] := by simp
    rw [if_pos rfl, hsplit, getLast?_trimEnd_concat (by decide)]
    rfl
  | false =>
    rw [if_neg Bool.false_ne_true, List.append_nil]
    rcases List.eq_nil_or_concat attributes with rfl | ⟨front, a, rfl⟩
    · rfl
    · obtain ⟨more, c, rfl, hc, hne⟩ := (h a (by simp)).exists_last
      rw [List.concat_eq_append, List.flatten_concat, ← List.append_assoc, getLast?_trimEnd_concat hc]
      simpa using hne

/-- What matches with a slash in front of an allowed name is its closing tag. -/
lemma Tag.ofMatch?_closing {allowed : List Text} {name : Text} (hlower : Text.toLower name = name)
    (hname : name ∈ allowed) (position : Nat) (w rest : Text) :
    Tag.ofMatch? allowed ⟨position, w, [(3, rest), (2, name), (1, ['/'])]⟩ = some (.closing name) := by
  have hgroup : Match.group ⟨position, w, [(3, rest), (2, name), (1, ['/'])]⟩ 2 = name := rfl
  have hslash : Match.group ⟨position, w, [(3, rest), (2, name), (1, ['/'])]⟩ 1 = ['/'] := rfl
  unfold Tag.ofMatch?
  rw [hgroup, hslash, hlower, if_neg (by simpa using hname), if_pos (by decide)]

/-- What matches with an allowed name is its opening tag, with the attributes that are found behind it. -/
lemma Tag.ofMatch?_opening {allowed : List Text} {name : Text} (hlower : Text.toLower name = name)
    (hname : name ∈ allowed) (position : Nat) (w rest : Text) :
    Tag.ofMatch? allowed ⟨position, w, [(3, rest), (2, name), (1, [])]⟩ =
      some (.opening name ((Attribute.shape.findAll rest).filterMap Attribute.ofMatch?)
        ((Text.trimEnd rest).getLast? == some '/')) := by
  have hgroup : Match.group ⟨position, w, [(3, rest), (2, name), (1, [])]⟩ 2 = name := rfl
  have hslash : Match.group ⟨position, w, [(3, rest), (2, name), (1, [])]⟩ 1 = [] := rfl
  unfold Tag.ofMatch?
  rw [hgroup, hslash, hlower, if_neg (by simpa using hname), if_neg (by decide)]
  rfl

/-- A clean tag is found where it stands, and written again as it was. -/
theorem CleanTag.exists_match {extra : List Text} {tag : Text} (h : CleanTag extra tag) (position : Nat)
    (previous : Option Char) (behind : Text) :
    ∃ m, Tag.shape.matchAt? position previous (tag ++ behind) = some m ∧ m.text = tag ∧
      (Sanitizer.ofExtraTags extra).written (.found m) = tag := by
  -- a tag is matched as it was written, and written as it was matched
  cases h with
  | @closing name hname =>
    have hm := Tag.matchAt?_shape (.inr rfl) hname.isName (fun _ _ => List.not_mem_nil)
      (fun _ => stops_cons (by decide) _) position previous behind
    have hsource : '<' :: ['/'] ++ name ++ [] ++ ['>'] = ['<', '/'] ++ name ++ ['>'] := by simp
    rw [hsource] at hm
    refine ⟨_, hm, rfl, ?_⟩
    rw [Sanitizer.written_found, Tag.ofMatch?_closing hname.toLower_eq hname.mem_allowed]
    rfl
  | @opening name hname attributes hattributes slash =>
    have hm := Tag.matchAt?_shape (.inl rfl) hname.isName (not_mem_inside hattributes slash)
      (stops_inside hattributes slash) position previous behind
    have hsource : '<' :: [] ++ name ++ inside attributes slash ++ ['>'] =
        '<' :: name ++ attributes.flatten ++ (if slash then [' ', '/'] else []) ++ ['>'] := by simp [inside]
    rw [hsource] at hm
    have hkept := keptText_inside hattributes slash 0 none
    rw [← parts_eq] at hkept
    refine ⟨_, hm, rfl, ?_⟩
    rw [Sanitizer.written_found, Tag.ofMatch?_opening hname.toLower_eq hname.mem_allowed,
      slash_of_cleanAttributes hattributes]
    show '<' :: name ++ keptText (Attribute.shape.parts (inside attributes slash)) ++ _ ++ _ = _
    rw [hkept]

/-! ## The whole document -/

/-- A clean document is made of text without brackets and of tags that are allowed. -/
lemma CleanDocument.exists_pieces {extra : List Text} {t : Text} (h : CleanDocument extra t) :
    ∃ pieces : List Text, t = pieces.flatten ∧ ∀ w ∈ pieces, '<' ∉ w ∨ TagForm extra w := by
  induction h with
  | @chunk chunk hchunk => exact ⟨[chunk], by simp, by simp [hchunk.bracket]⟩
  | @tagged chunk tag rest hchunk htag _ ih =>
    obtain ⟨pieces, rfl, hpieces⟩ := ih
    refine ⟨chunk :: tag :: pieces, by simp, ?_⟩
    exact List.forall_mem_cons.2 ⟨.inl hchunk.bracket, List.forall_mem_cons.2 ⟨.inr htag.tagForm, hpieces⟩⟩

/-- There is nothing to remove from a clean document. -/
theorem CleanDocument.settled {extra : List Text} {t : Text} (h : CleanDocument extra t) : Settled t := by
  obtain ⟨pieces, rfl, hpieces⟩ := h.exists_pieces
  exact settled_of_tagForm fun front behind heq => exists_tagForm_of_flatten_eq hpieces heq

/-- From any place on, a clean document is written as it stands. -/
lemma CleanDocument.rebuildFrom_eq {extra : List Text} {t : Text} (h : CleanDocument extra t) (position : Nat)
    (previous : Option Char) : (Sanitizer.ofExtraTags extra).rebuildFrom position previous t = t := by
  induction h generalizing position previous with
  | @chunk chunk hchunk =>
    have hwhole := (Sanitizer.ofExtraTags extra).rebuildFrom_append (t := []) hchunk.bracket position previous
      (by simp [partsFrom])
    rw [List.append_nil] at hwhole
    rw [hwhole, hchunk.neutralize_eq]
    exact List.append_nil chunk
  | @tagged chunk tag rest hchunk htag _ ih =>
    have hne : tag ≠ [] := by
      obtain ⟨body, rfl, -⟩ := htag.tagForm.eq_cons
      exact List.cons_ne_nil '<' body
    have hfirst : ∀ s, (partsFrom Tag.shape 0 (position + chunk.length) chunk.getLast? (tag ++ rest)).head? ≠
        some (.plain s) := by
      intro s
      obtain ⟨m, hm, htext, -⟩ := htag.exists_match (position + chunk.length) chunk.getLast? rest
      simp [partsFrom_of_matchAt? hm htext hne]
    obtain ⟨m, hm, htext, hwritten⟩ :=
      htag.exists_match (position + chunk.length) (chunk.getLast?.or previous) rest
    rw [Sanitizer.rebuildFrom_append _ hchunk.bracket position previous hfirst, hchunk.neutralize_eq,
      Sanitizer.rebuildFrom_of_matchAt? _ hm htext hne, hwritten, ih]

/-- A clean document passes unchanged, whatever tags are allowed besides the default ones. -/
theorem sanitize_of_cleanDocument {extra : List Text} {t : Text} (h : CleanDocument extra t) :
    (Sanitizer.ofExtraTags extra).sanitize t = t := by
  rw [Sanitizer.sanitize, sweepRounds_of_settled h.settled, Sanitizer.rebuild_eq_rebuildFrom, h.rebuildFrom_eq]

/-- A link whose title looks like a script, in an element that is allowed besides the default ones. -/
theorem sanitize_clean_link :
    CleanDocument ["Section"] "<section id>= <a href=\"/?a&#61;1\" title=\"&lt;b&gt; javascript&#58;x\" /></a>" ∧
      (Sanitizer.ofExtraTags ["Section"]).sanitize
          "<section id>= <a href=\"/?a&#61;1\" title=\"&lt;b&gt; javascript&#58;x\" /></a>" =
        "<section id>= <a href=\"/?a&#61;1\" title=\"&lt;b&gt; javascript&#58;x\" /></a>" := by
  have hlower : ∀ d ∈ "ection".toList, d.isLower = true ∨ d.isDigit = true := fun d hd =>
    .inl (List.all_eq_true.1 (by decide : "ection".toList.all Char.isLower = true) d hd)
  have hsection : TagName ["Section"] "section" :=
    ⟨⟨'s', "ection", rfl, by decide, hlower⟩, .inr (by decide), by decide⟩
  have hlink : TagName ["Section"] "a" := ⟨⟨'a', [], rfl, by decide, by simp⟩, .inl (by decide), by decide⟩
  have hid : CleanAttribute (' ' :: "id".toList) := .bare (by decide)
  have hhref : CleanAttribute (' ' :: "href".toList ++ ['=', '"'] ++ escapeValue "/?a=1" ++ ['"']) :=
    .valued (by decide) _ fun _ => by decide +kernel
  have htitle : CleanAttribute (' ' :: "title".toList ++ ['=', '"'] ++ escapeValue "<b> javascript:x" ++ ['"']) :=
    .valued (by decide) _ fun h => absurd h (by decide)
  have hempty : CleanChunk [] := ⟨List.not_mem_nil, by decide +kernel, by decide +kernel⟩
  have hchunk : CleanChunk "= " := ⟨by decide, by decide +kernel, by decide +kernel⟩
  have hclosed := CleanDocument.tagged hempty (.closing hlink) (.chunk hempty)
  have hlinked := CleanDocument.tagged hchunk
    (.opening hlink (List.forall_mem_cons.2 ⟨hhref, List.forall_mem_singleton.2 htitle⟩) true) hclosed
  have hwhole := CleanDocument.tagged hempty (.opening hsection (List.forall_mem_singleton.2 hid) false) hlinked
  have hdocument : CleanDocument ["Section"]
      "<section id>= <a href=\"/?a&#61;1\" title=\"&lt;b&gt; javascript&#58;x\" /></a>" := by
    convert hwhole using 1
    decide +kernel
  exact ⟨hdocument, sanitize_of_cleanDocument hdocument⟩

end Stencil.Markup
