import Stencil.Proofs.Markup.Neutral
import Stencil.Proofs.Markup.TagForm

/-!
# The schemes of addresses

The sanitiser passes over all blanks and controls of an address and takes what stands in front of the first colon for
its scheme. A browser passes over less: what cannot be seen in front of an address, and tabs and line ends in it
(`readAddress`). What it takes for a scheme is made of letters, digits and three signs (`IsSchemeName`), all of which
the sanitiser sees as well, so both see the same one (`isSafeAddress_iff_of_hasScheme`).

Main statement: no address in a tag of a sanitised document has a scheme that is not safe
(`mem_safeSchemes_of_hasScheme`).
-/

namespace Stencil.Markup

open Pattern

/-! ## Addresses as a browser reads them -/

/-- An address without the controls and spaces in front of it, and without tabs and line ends. -/
def readAddress (address : Text) : Text :=
  (address.dropWhile fun c => c.toNat ≤ 0x20).filter fun c => !(c == '\t' || c == '\n' || c == '\r')

/-- A character of a scheme behind its first. -/
def isSchemeChar (c : Char) : Bool := c.isAlphanum || c == '+' || c == '-' || c == '.'

/-- A letter with letters, digits and some signs behind it, all of ASCII. -/
def IsSchemeName (scheme : Text) : Prop :=
  ∃ c rest, scheme = c :: rest ∧ c.isAlpha = true ∧ ∀ d ∈ rest, isSchemeChar d = true

/-- What a browser takes for the scheme of an address. -/
def HasScheme (address scheme : Text) : Prop :=
  IsSchemeName scheme ∧ ∃ rest, readAddress address = scheme ++ ':' :: rest

lemma IsSchemeName.all {scheme : Text} (h : IsSchemeName scheme) : ∀ c ∈ scheme, isSchemeChar c = true := by
  obtain ⟨d, rest, rfl, hd, hrest⟩ := h
  refine List.forall_mem_cons.2 ⟨?_, hrest⟩
  rw [isSchemeChar, Char.isAlphanum, hd]
  rfl

/-! ## What the sanitiser sees of them -/

/-- Whether the sanitiser does not pass over a character. -/
def isSeen (c : Char) : Bool := !(Text.isBlank c || Text.isControl c)

lemma isSeen_eq_false_of_le {c : Char} (h : c.toNat ≤ 0x20) : isSeen c = false := by
  rcases Nat.lt_or_eq_of_le h with hlt | heq
  · simp [isSeen, Text.isControl, hlt]
  · obtain rfl : c = ' ' := Char.toNat_inj.1 heq
    decide

/-- What can be printed is seen. -/
lemma isSeen_of_lt {c : Char} (hlow : 0x20 < c.toNat) (hhigh : c.toNat < 0x7f) : isSeen c = true := by
  have hranges : ∀ range ∈ Text.blankRanges, range.2 ≤ 0x20 ∨ 0x7f < range.1 := by decide
  have hblank : Text.isBlank c = false := by
    rw [Bool.eq_false_iff, Text.isBlank, ne_eq, Text.Range.mem_iff_of_ascending Text.ascending_blankRanges]
    rintro ⟨range, hrange, hfirst, hlast⟩
    have := hranges range hrange
    omega
  have hcontrol : Text.isControl c = false := by
    simp only [Text.isControl, Bool.or_eq_false_iff, Bool.and_eq_false_iff, decide_eq_false_iff_not]
    omega
  rw [isSeen, hblank, hcontrol]
  rfl

/-- Every character of a scheme is seen. -/
lemma isSeen_of_isSchemeChar {c : Char} (h : isSchemeChar c = true) : isSeen c = true := by
  simp only [isSchemeChar, Char.isAlphanum, Bool.or_eq_true, beq_iff_eq] at h
  rcases h with (((halpha | hdigit) | rfl) | rfl) | rfl
  · have := Text.toNat_of_isAlpha halpha
    exact isSeen_of_lt (by omega) (by omega)
  · have : 48 ≤ c.toNat ∧ c.toNat ≤ 57 := Char.isDigit_iff_toNat.1 hdigit
    exact isSeen_of_lt (by omega) (by omega)
  · decide
  · decide
  · decide

/-- What a browser passes over, the sanitiser does not see either. -/
lemma filter_isSeen_readAddress (address : Text) : (readAddress address).filter isSeen = address.filter isSeen := by
  have hfront : (address.takeWhile fun c => c.toNat ≤ 0x20).filter isSeen = [] := by
    refine List.filter_eq_nil_iff.2 fun c hc => ?_
    have hle := List.all_eq_true.1 List.all_takeWhile c hc
    rw [isSeen_eq_false_of_le (by simpa using hle)]
    exact Bool.false_ne_true
  have hsame : ∀ c ∈ address.dropWhile fun c => c.toNat ≤ 0x20,
      (isSeen c && !(c == '\t' || c == '\n' || c == '\r')) = isSeen c := by
    intro c _
    cases hseen : isSeen c with
    | false => rfl
    | true =>
      have hother : ∀ d : Char, isSeen d = false → (c == d) = false := fun d hd => by
        rw [beq_eq_false_iff_ne]
        rintro rfl
        rw [hseen] at hd
        exact Bool.false_ne_true hd.symm
      rw [hother '\t' (by decide), hother '\n' (by decide), hother '\r' (by decide)]
      rfl
  rw [readAddress, List.filter_filter, List.filter_congr hsame]
  conv_rhs => rw [← List.takeWhile_append_dropWhile (p := fun c => decide (c.toNat ≤ 0x20)) (l := address)]
  rw [List.filter_append, hfront, List.nil_append]

/-- In small letters, a character of a scheme is still one. -/
lemma isSchemeChar_toLower {c : Char} (h : isSchemeChar c = true) : isSchemeChar c.toLower = true := by
  simp only [isSchemeChar, Bool.or_eq_true, beq_iff_eq] at h
  rcases h with ((halnum | rfl) | rfl) | rfl
  · have hsmall : c.toLower.isAlphanum = true := by
      rcases isLower_or_isDigit_toLower halnum with hlower | hdigit
      · exact Bool.or_eq_true_iff.2 (.inl (Text.isAlpha_iff.2 (.inr hlower)))
      · exact Bool.or_eq_true_iff.2 (.inr hdigit)
    rw [isSchemeChar, hsmall]
    rfl
  · decide
  · decide
  · decide

lemma IsSchemeName.toLower {scheme : Text} (h : IsSchemeName scheme) :
    ∀ c ∈ Text.toLower scheme, isSchemeChar c = true := by
  intro c hc
  obtain ⟨d, hd, rfl⟩ := List.mem_map.1 hc
  exact isSchemeChar_toLower (h.all d hd)

/-- An address is judged by what is seen in front of its first colon. -/
lemma isSafeAddress_eq {address scheme : Text}
    (h : (Text.toLower (address.filter isSeen)).takeWhile (· != ':') = scheme) :
    isSafeAddress address = (scheme.length == (Text.toLower (address.filter isSeen)).length ||
      scheme.any (fun c => c == '/' || c == '?' || c == '#') || safeSchemes.contains scheme) := by
  subst h
  rfl

/-- Where a browser finds a scheme, the sanitiser judges the address by this scheme. -/
theorem isSafeAddress_iff_of_hasScheme {address scheme : Text} (h : HasScheme address scheme) :
    isSafeAddress address = true ↔ Text.toLower scheme ∈ safeSchemes := by
  obtain ⟨hname, rest, hread⟩ := h
  have hcompact : Text.toLower (address.filter isSeen) =
      Text.toLower scheme ++ ':' :: Text.toLower (rest.filter isSeen) := by
    rw [← filter_isSeen_readAddress, hread, List.filter_append,
      List.filter_eq_self.2 fun c hc => isSeen_of_isSchemeChar (hname.all c hc),
      List.filter_cons_of_pos (by decide), Text.toLower, List.map_append, List.map_cons]
    rfl
  have hother : ∀ d : Char, isSchemeChar d = false → d ∉ Text.toLower scheme := fun d hd hmem => by
    rw [hname.toLower d hmem] at hd
    exact Bool.false_ne_true hd.symm
  -- no character of a scheme is a colon, so the first one ends the scheme
  have htaken : (Text.toLower (address.filter isSeen)).takeWhile (· != ':') = Text.toLower scheme := by
    rw [hcompact]
    exact Text.takeWhile_append_sign (hother ':' (by decide)) _
  have hlength : ((Text.toLower scheme).length == (Text.toLower (address.filter isSeen)).length) = false := by
    rw [hcompact, beq_eq_false_iff_ne, List.length_append, List.length_cons]
    omega
  have hpath : (Text.toLower scheme).any (fun c => c == '/' || c == '?' || c == '#') = false := by
    rw [List.any_eq_false]
    intro c hc hsign
    simp only [Bool.or_eq_true, beq_iff_eq] at hsign
    rcases hsign with (rfl | rfl) | rfl
    · exact hother '/' (by decide) hc
    · exact hother '?' (by decide) hc
    · exact hother '#' (by decide) hc
  rw [isSafeAddress_eq htaken, hlength, hpath, Bool.false_or, Bool.false_or, List.contains_iff_mem]

/-! ## Addresses in tags -/

/-- The names of attributes hold neither of the signs that stand around them. -/
lemma not_mem_of_mem_allowedAttributes {name : Text} (h : name ∈ allowedAttributes) : ' ' ∉ name ∧ '=' ∉ name := by
  have hall : ∀ name ∈ allowedAttributes, ' ' ∉ name ∧ '=' ∉ name := by decide
  exact hall name h

/-- What is found as an attribute among the attributes of a tag is one of these, so an address in it is safe. -/
lemma isSafeAddress_of_flatten_eq {attributes : List Text} (hattributes : ∀ a ∈ attributes, AttributeForm a)
    {lead tail front name value behind : Text} (hlead : '=' ∉ lead) (htail : '=' ∉ tail)
    (hname : name ∈ addressAttributes) (hvalue : '"' ∉ value)
    (heq : lead ++ (attributes.flatten ++ tail) = front ++ (' ' :: name ++ ['=', '"'] ++ value ++ '"' :: behind)) :
    isSafeAddress (decodeEntities value) = true := by
  have haddress : ∀ name ∈ addressAttributes, name ∈ allowedAttributes := by decide
  obtain ⟨hspace, hequals⟩ := not_mem_of_mem_allowedAttributes (haddress name hname)
  -- by induction on the attributes; the one that was found begins at an equals sign, and the first such sign decides
  induction attributes generalizing lead front with
  | nil =>
    have hmem : '=' ∈ lead ++ ([].flatten ++ tail) := by
      rw [heq]
      simp
    simp [hlead, htail] at hmem
  | cons a rest ih =>
    obtain ⟨ha, hrest⟩ := List.forall_mem_cons.1 hattributes
    cases ha with
    | @bare n allowed _ =>
      have hlead' : '=' ∉ lead ++ ' ' :: n := by simp [hlead, (not_mem_of_mem_allowedAttributes allowed).2]
      exact ih hrest hlead' (by simpa using heq)
    | @valued n v allowed _ unbroken safe =>
      obtain ⟨hspace', hequals'⟩ := not_mem_of_mem_allowedAttributes allowed
      have hlead' : '=' ∉ lead ++ ' ' :: n := by simp [hlead, hequals']
      by_cases hfront : '=' ∈ front
      · -- the equals sign of this attribute is in front of the one that was found
        obtain ⟨before, after, rfl, hbefore⟩ := List.eq_append_cons_of_mem hfront
        have hsplit : (lead ++ ' ' :: n) ++ '=' :: ('"' :: v ++ ['"'] ++ (rest.flatten ++ tail)) =
            before ++ '=' :: (after ++ (' ' :: name ++ ['=', '"'] ++ value ++ '"' :: behind)) := by
          simpa using heq
        have hvalue' : '=' ∉ '"' :: v ++ ['"'] := by
          have hfree : '=' ∉ v := fun hmem => unbroken _ hmem (by decide)
          simp [hfree]
        exact ih hrest hvalue' (Text.append_cons_inj_of_first hlead' hbefore hsplit).2
      · have hsplit : (lead ++ ' ' :: n) ++ '=' :: '"' :: (v ++ '"' :: (rest.flatten ++ tail)) =
            (front ++ ' ' :: name) ++ '=' :: '"' :: (value ++ '"' :: behind) := by
          simpa using heq
        obtain ⟨hnames, hvalues⟩ := Text.append_cons_inj_of_first hlead' (by simp [hfront, hequals]) hsplit
        obtain ⟨-, rfl⟩ := Text.append_cons_inj_of_last hspace' hspace hnames
        have hquote : '"' ∉ v := fun hmem => unbroken _ hmem (by decide)
        obtain ⟨rfl, -⟩ := Text.append_cons_inj_of_first hquote hvalue (List.cons.inj hvalues).2
        exact safe hname

lemma TagName.equals_not_mem {extra : List Text} {name : Text} (h : TagName extra name) : '=' ∉ name := by
  intro hmem
  obtain ⟨d, rest, rfl, hd, hrest⟩ := h.lower
  rcases List.mem_cons.1 hmem with rfl | hmem
  · exact absurd hd (by decide)
  · exact absurd (hrest _ hmem) (by decide)

/-- Whether each address in a tag has no scheme or a safe one. -/
def AddressesSafe (tag : Text) : Prop :=
  ∀ front name value behind scheme, tag = front ++ (' ' :: name ++ ['=', '"'] ++ value ++ '"' :: behind) →
    name ∈ addressAttributes → '"' ∉ value → HasScheme (decodeEntities value) scheme →
      Text.toLower scheme ∈ safeSchemes

/-- The addresses of a tag are safe. -/
lemma TagForm.addressesSafe {extra : List Text} {tag : Text} (h : TagForm extra tag) : AddressesSafe tag := by
  intro front name value behind scheme heq hname hvalue hscheme
  refine (isSafeAddress_iff_of_hasScheme hscheme).1 ?_
  cases h with
  | @closing n hn =>
    have hlead : '=' ∉ ['<', '/'] ++ n := by simp [hn.equals_not_mem]
    have htail : '=' ∉ ['>'] := by decide
    have hnone : ∀ a ∈ ([] : List Text), AttributeForm a := by simp
    exact isSafeAddress_of_flatten_eq hnone hlead htail hname hvalue heq
  | @opening n hn attributes hattributes slash =>
    have hlead : '=' ∉ '<' :: n := by simp [hn.equals_not_mem]
    have htail : '=' ∉ (if slash then [' ', '/'] else []) ++ ['>'] := by cases slash <;> decide
    exact isSafeAddress_of_flatten_eq hattributes hlead htail hname hvalue (by simpa using heq)

/-- An address that is safe for the sanitiser has no scheme for a browser but a safe one. So none in a tag of a
sanitised document has, whatever the document was and whatever tags were allowed. -/
theorem mem_safeSchemes_of_hasScheme (extra : List Text) (html : Text) :
    (∀ address scheme, isSafeAddress address = true → HasScheme address scheme → Text.toLower scheme ∈ safeSchemes) ∧
      ∀ front behind, (Sanitizer.ofExtraTags extra).sanitize html = front ++ '<' :: behind →
        ∃ tag rest, '<' :: behind = tag ++ rest ∧ TagForm extra tag ∧ AddressesSafe tag := by
  refine ⟨fun address scheme hsafe hscheme => (isSafeAddress_iff_of_hasScheme hscheme).1 hsafe, ?_⟩
  intro front behind heq
  rw [Sanitizer.sanitize, Sanitizer.rebuild_eq] at heq
  obtain ⟨tag, rest, hsplit, hform⟩ := exists_tagForm_of_flatten_eq (fun w hw => by
    obtain ⟨part, hpart, rfl⟩ := List.mem_map.1 hw
    exact written_part hpart) heq
  exact ⟨tag, rest, hsplit, hform, hform.addressesSafe⟩

/-- Line ends in the schemes of two addresses, of which the safe one is kept. -/
theorem addressesSafe_broken_lines :
    (Sanitizer.ofExtraTags []).sanitize "<a href='&#9;Ht&#10;tps:x' src='&#1;java&#10;script:x'>" =
        [] ++ '<' :: "a href=\"\tHt\ntps:x\">".toList ∧
      HasScheme "\tHt\ntps:x" "Https" ∧ HasScheme "\x01java\nscript:x" "javascript" ∧
      ∃ tag rest, '<' :: "a href=\"\tHt\ntps:x\">".toList = tag ++ rest ∧ TagForm [] tag ∧ AddressesSafe tag := by
  have hdocument : (Sanitizer.ofExtraTags []).sanitize "<a href='&#9;Ht&#10;tps:x' src='&#1;java&#10;script:x'>" =
      [] ++ '<' :: "a href=\"\tHt\ntps:x\">".toList := by decide +kernel
  have hsafe : HasScheme "\tHt\ntps:x" "Https" :=
    ⟨⟨'H', "ttps".toList, rfl, by decide, List.all_eq_true.1 (by decide)⟩, ['x'], by decide⟩
  have hunsafe : HasScheme "\x01java\nscript:x" "javascript" :=
    ⟨⟨'j', "avascript".toList, rfl, by decide, List.all_eq_true.1 (by decide)⟩, ['x'], by decide⟩
  exact ⟨hdocument, hsafe, hunsafe, (mem_safeSchemes_of_hasScheme [] _).2 _ _ hdocument⟩

end Stencil.Markup
