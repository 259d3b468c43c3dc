import Stencil.Proofs.Markup.Neutral
import Stencil.Proofs.Markup.TagForm
import Stencil.Proofs.Pattern.Opening
import Stencil.Proofs.Pattern.Search

/-!
# Reading tags and their attributes

A tag is looked for in a document, and the attributes of a tag in what stands behind its name. Nothing of what was
written in the usual form is read otherwise: the name is read to its end, a value up to its second quote, and the parts
that are found are the parts that were written, whatever stands behind them.

Main statements: `Attribute.matchAt?_bare` and `Attribute.matchAt?_valued` find an attribute that was written, and
`Tag.matchAt?_shape` finds a tag, each with its parts. Between tags a document is rebuilt text by text
(`Sanitizer.rebuildFrom_append`).
-/

namespace Stencil.Markup

open Pattern

/-! ## Attributes -/

namespace Attribute

/-- The first character of the name of an attribute. -/
def isNameHead (c : Char) : Bool := c.isAlpha || c == '_' || c == ':'

/-- A later character of the name of an attribute. -/
def isNameChar (c : Char) : Bool := c.isAlphanum || c == '-' || c == '_' || c == ':' || c == '.'

/-- A value between quotes. -/
def quoted (quote : Char) (number : Nat) : Pattern :=
  exactly quote ++ .group number (many (· != quote)) ++ exactly quote

/-- An equals sign and a value. -/
def assigned : Pattern :=
  blanks ++ exactly '=' ++ blanks ++
    oneOfThese [
      quoted '"' 2,
      quoted '\'' 3,
      .group 4 (some1 fun c =>
        !(Text.isBlank c || c == '"' || c == '\'' || c == '=' || c == '<' || c == '>' || c == '\x60'))]

lemma shape_eq : shape = .group 1 (.char isNameHead ++ many isNameChar) ++ optionally assigned := rfl

/-- Behind a name comes what is assigned to it, or nothing; it is found in any case. -/
def found? (start : Place) (t : Text) (q : Place) (s : Text) : Option Place :=
  (optionally assigned).search (fun q _ => some q) (q.remember 1 t (q.position - start.position)) s

lemma isSome_found? (start : Place) (t : Text) (q : Place) (s : Text) : (found? start t q s).isSome = true := by
  show ((assigned.search (fun q _ => some q) _ s).orElse fun _ => some _).isSome = true
  cases assigned.search (fun q _ => some q) _ s <;> rfl

/-- An attribute is searched where a name begins, and its name is as long as possible. -/
lemma search_shape (start : Place) (c : Char) (rest : Text) :
    shape.search (fun q _ => some q) start (c :: rest) =
      if isNameHead c then
        found? start (c :: rest) (start.after (c :: rest.takeWhile isNameChar)) (rest.dropWhile isNameChar)
      else none := by
  have hshape : shape.search (fun q _ => some q) start (c :: rest) =
      (pass? [isNameHead] start (c :: rest)).bind fun e =>
        searchRepetition false isNameChar (found? start (c :: rest)) 0 none e.1 e.2 := rfl
  rw [hshape, pass?]
  split
  · exact searchRepetition_of_isSome (isSome_found? start (c :: rest)) isNameChar _ _
  · rfl

/-- No attribute begins at a character that is not one of names. -/
lemma matchAt?_shape_eq_none {c : Char} (hc : isNameChar c = false) (position : Nat) (previous : Option Char)
    (rest : Text) : shape.matchAt? position previous (c :: rest) = none := by
  have hhead : isNameHead c = false := by
    simp only [isNameChar, isNameHead, Char.isAlphanum, Bool.or_eq_false_iff] at hc ⊢
    exact ⟨⟨hc.1.1.1.1.1, hc.1.1.2⟩, hc.1.2⟩
  rw [matchAt?, search_shape, if_neg (Bool.eq_false_iff.1 hhead)]

/-! ### Attributes that were written -/

/-- What an attribute is called. -/
def IsName (name : Text) : Prop := ∃ c rest, name = c :: rest ∧ isNameHead c = true ∧ ∀ d ∈ rest, isNameChar d = true

/-- An attribute is found by its name, and its value behind that. -/
lemma search_shape_of_isName {name behind : Text} (hname : IsName name) (hbehind : Stops isNameChar behind)
    (p : Place) :
    shape.search (fun q _ => some q) p (name ++ behind) = found? p (name ++ behind) (p.after name) behind := by
  obtain ⟨c, rest, rfl, hc, hrest⟩ := hname
  rw [List.cons_append, search_shape, if_pos hc, takeWhile_append_of_stops hrest hbehind,
    dropWhile_append_of_stops hrest hbehind]

/-- Nothing is assigned where no equals sign stands behind the blanks. -/
lemma search_assigned_eq_none {t : Text} (h : (t.dropWhile Text.isBlank).head? ≠ some '=') (p : Place) :
    assigned.search (fun q _ => some q) p t = none := by
  rw [search_eq_findSome?, List.findSome?_eq_none_iff]
  rintro ⟨p', t'⟩ hmem
  obtain ⟨p3, t3, hmem, -⟩ := mem_ends_sequence.1 hmem
  obtain ⟨p2, t2, hmem, -⟩ := mem_ends_sequence.1 hmem
  obtain ⟨p1, t1, hblanks, hequals⟩ := mem_ends_sequence.1 hmem
  obtain ⟨b, hb, rfl, rfl⟩ := mem_ends_many.1 hblanks
  obtain ⟨rfl, rfl⟩ := mem_ends_exactly.1 hequals
  rw [dropWhile_append_of_stops hb (stops_cons (by decide) t2)] at h
  exact absurd rfl h

/-- An attribute without a value is found as it stands. -/
theorem matchAt?_bare {name behind : Text} (hname : IsName name) (hbehind : Stops isNameChar behind)
    (hnone : (behind.dropWhile Text.isBlank).head? ≠ some '=') (position : Nat) (previous : Option Char) :
    shape.matchAt? position previous (name ++ behind) = some ⟨position, name, [(1, name)]⟩ := by
  have hsearch := search_shape_of_isName hname hbehind ⟨position, previous, []⟩
  rw [found?, optionally, search, search_assigned_eq_none hnone] at hsearch
  have hne : name ≠ [] := by
    obtain ⟨c, rest, rfl, -⟩ := hname
    exact List.cons_ne_nil c rest
  rw [matchAt?_eq_some hsearch (by simp) hne]
  simp [Capture.text_eq]

/-- A value is found between its quotes. -/
lemma search_quoted {quote : Char} {value : Text} (hvalue : quote ∉ value) (number : Nat) (p : Place)
    (behind : Text) :
    (quoted quote number).search (fun q _ => some q) p (quote :: value ++ quote :: behind) =
      some ((((p.next quote).after value).remember number (value ++ quote :: behind) value.length).next quote) := by
  have hchars : ∀ c ∈ value, (c != quote) = true := fun c hc => by
    rw [bne_iff_ne]
    rintro rfl
    exact hvalue hc
  rw [quoted, search_append, search_append, List.cons_append, search_exactly]
  refine search_group_many hchars (stops_cons (by simp) _) ?_
  rw [search_exactly]

/-- A value in double quotes is captured up to the closing quote. -/
lemma search_assigned {value : Text} (hvalue : '"' ∉ value) (p : Place) (behind : Text) :
    assigned.search (fun q _ => some q) p ('=' :: '"' :: value ++ '"' :: behind) =
      some (((((p.next '=').next '"').after value).remember 2 (value ++ '"' :: behind) value.length).next '"') := by
  rw [assigned, search_append, search_append, search_append, List.cons_append, List.cons_append]
  refine search_many_nil (stops_cons (by decide) _) ?_
  rw [search_exactly]
  refine search_many_nil (stops_cons (by decide) _) ?_
  have hquoted := search_quoted hvalue 2 (p.next '=') behind
  rw [List.cons_append] at hquoted
  show ((quoted '"' 2).search (fun q _ => some q) (p.next '=') _).orElse _ = _
  rw [hquoted]
  rfl

/-- An attribute with a value between double quotes is found as it stands. -/
theorem matchAt?_valued {name value : Text} (hname : IsName name) (hvalue : '"' ∉ value) (position : Nat)
    (previous : Option Char) (behind : Text) :
    shape.matchAt? position previous (name ++ ['=', '"'] ++ value ++ ['"'] ++ behind) =
      some ⟨position, name ++ ['=', '"'] ++ value ++ ['"'], [(2, value), (1, name)]⟩ := by
  have hstops : Stops isNameChar ('=' :: '"' :: value ++ '"' :: behind) := stops_cons (by decide) _
  have hsearch := search_shape_of_isName hname hstops ⟨position, previous, []⟩
  rw [found?, optionally, search, search_assigned hvalue] at hsearch
  have hsource : name ++ ('=' :: '"' :: value ++ '"' :: behind) = name ++ ['=', '"'] ++ value ++ ['"'] ++ behind := by
    simp
  rw [hsource] at hsearch
  rw [matchAt?_eq_some hsearch (by simp; omega) (by simp)]
  simp [Capture.text_eq]

/-! ### The attributes of a tag -/

/-- The texts of the attributes that are kept of some parts. -/
def keptText (parts : List Part) : Text :=
  ((parts.filterMap Part.match?).filterMap ofMatch?).flatMap Attribute.text

lemma keptText_consPlain (c : Char) (parts : List Part) : keptText (consPlain c parts) = keptText parts := by
  rw [keptText, filterMap_consPlain, keptText]

/-- A match is kept as the text of its attribute, if it is allowed. -/
lemma keptText_found (m : Match) (parts : List Part) :
    keptText (.found m :: parts) = ((ofMatch? m).map Attribute.text).getD [] ++ keptText parts := by
  have hmatch : (Part.found m).match? = some m := rfl
  rw [keptText, List.filterMap_cons_some hmatch]
  cases hkept : ofMatch? m with
  | none =>
    rw [List.filterMap_cons_none hkept]
    rfl
  | some a =>
    rw [List.filterMap_cons_some hkept, List.flatMap_cons]
    rfl

/-- A character at which no attribute begins is not kept. -/
lemma keptText_of_matchAt?_eq_none {c : Char} {rest : Text} {position : Nat} {previous : Option Char}
    (h : shape.matchAt? position previous (c :: rest) = none) :
    keptText (partsFrom shape 0 position previous (c :: rest)) =
      keptText (partsFrom shape 0 (position + 1) (some c) rest) := by
  rw [partsFrom, h]
  exact keptText_consPlain c _

end Attribute

/-! ## Tags -/

namespace Tag

lemma opensWith_shape : shape.OpensWith '<' := by
  unfold shape
  iterate 6 refine OpensWith.append ?_ _
  exact opensWith_exactly '<'

/-- What a tag may be called: a letter with letters and digits behind it. -/
def IsName (name : Text) : Prop := ∃ c rest, name = c :: rest ∧ c.isAlpha = true ∧ ∀ d ∈ rest, d.isAlphanum = true

lemma IsName.stops_isBlank {name : Text} (h : IsName name) (behind : Text) : Stops Text.isBlank (name ++ behind) := by
  obtain ⟨c, rest, rfl, hc, -⟩ := h
  exact stops_cons (Text.isBlank_of_isAlpha hc) _

/-- A name is captured up to the first character that is neither a letter nor a digit. -/
lemma search_name {name behind : Text} (hname : IsName name) (hbehind : Stops Char.isAlphanum behind)
    {p result : Place} {accept : Place → Text → Option Place}
    (h : accept ((p.after name).remember 2 (name ++ behind) name.length) behind = some result) :
    (Pattern.group 2 (.char Char.isAlpha ++ many Char.isAlphanum)).search accept p (name ++ behind) = some result := by
  obtain ⟨c, rest, rfl, hc, hrest⟩ := hname
  rw [search_group, search_append, List.cons_append, search_char hc]
  refine search_many hrest hbehind ?_
  rwa [Place.position_after, Place.position_next, Nat.add_right_comm, Nat.add_assoc, Nat.add_sub_cancel_left]

/-- The slash of a tag is found if there is one. -/
lemma search_slash {slash behind : Text} (hslash : slash = [] ∨ slash = ['/']) (hbehind : Stops (· == '/') behind)
    {p result : Place} {accept : Place → Text → Option Place}
    (h : accept ((p.after slash).remember 1 (slash ++ behind) slash.length) behind = some result) :
    (Pattern.group 1 (atMostOne (· == '/'))).search accept p (slash ++ behind) = some result := by
  rw [search_group]
  refine search_atMostOne ?_ ?_ hbehind ?_
  · rcases hslash with rfl | rfl <;> simp
  · rcases hslash with rfl | rfl <;> simp
  · rwa [Place.position_after, Nat.add_sub_cancel_left]

/-- The place behind a tag, with its three groups. -/
def past (p : Place) (slash name rest behind : Text) : Place :=
  (((((((p.next '<').after slash).remember 1 (slash ++ (name ++ (rest ++ '>' :: behind))) slash.length).after
    name).remember 2 (name ++ (rest ++ '>' :: behind)) name.length).after
    rest).remember 3 (rest ++ '>' :: behind) rest.length).next '>'

/-- A tag is found as it stands: its slash, its name, and what is left of it up to its end. -/
theorem matchAt?_shape {slash name rest : Text} (hslash : slash = [] ∨ slash = ['/']) (hname : IsName name)
    (hrest : ∀ c ∈ brackets, c ∉ rest) (hstops : ∀ behind, Stops Char.isAlphanum (rest ++ '>' :: behind))
    (position : Nat) (previous : Option Char) (behind : Text) :
    shape.matchAt? position previous ('<' :: slash ++ name ++ rest ++ ['>'] ++ behind) =
      some ⟨position, '<' :: slash ++ name ++ rest ++ ['>'], [(3, rest), (2, name), (1, slash)]⟩ := by
  have hchars : ∀ d ∈ rest, (d != '<' && d != '>') = true := fun d hd => by
    simp only [Bool.and_eq_true, bne_iff_ne, ne_eq]
    obtain ⟨hopening, hclosing⟩ := forall_mem_brackets.1 hrest
    exact ⟨fun heq => hopening (heq ▸ hd), fun heq => hclosing (heq ▸ hd)⟩
  -- no repetition of the pattern takes more than its own part: a slash, blanks, the name and what follows stop it
  have hfirst : Stops (· == '/') (name ++ (rest ++ '>' :: behind)) := by
    obtain ⟨c, more, rfl, hc, -⟩ := hname
    refine stops_cons ?_ _
    rw [beq_eq_false_iff_ne]
    rintro rfl
    exact absurd hc (by decide)
  have hblank : Stops Text.isBlank (slash ++ (name ++ (rest ++ '>' :: behind))) := by
    rcases hslash with rfl | rfl
    · exact hname.stops_isBlank _
    · exact stops_cons (by decide) _
  have hsearch : shape.search (fun q _ => some q) ⟨position, previous, []⟩
      ('<' :: (slash ++ (name ++ (rest ++ '>' :: behind)))) =
        some (past ⟨position, previous, []⟩ slash name rest behind) := by
    unfold shape
    iterate 6 rw [search_append]
    rw [search_exactly]
    refine search_many_nil hblank (search_slash hslash hfirst (search_many_nil (hname.stops_isBlank _) ?_))
    refine search_name hname (hstops behind) (search_group_many hchars (stops_cons (by decide) _) ?_)
    exact search_exactly '>' _ _ _
  have hsource : '<' :: (slash ++ (name ++ (rest ++ '>' :: behind))) =
      '<' :: slash ++ name ++ rest ++ ['>'] ++ behind := by simp
  rw [hsource] at hsearch
  rw [matchAt?_eq_some hsearch (by simp [past]; omega) (by simp)]
  simp [past, Capture.text_eq]

end Tag

/-! ## From tag to tag -/

namespace Sanitizer

/-- What a sanitiser writes for a document from a place on. -/
def rebuildFrom (s : Sanitizer) (position : Nat) (previous : Option Char) (t : Text) : Text :=
  (partsFrom Tag.shape 0 position previous t).flatMap s.written

lemma rebuild_eq_rebuildFrom (s : Sanitizer) (t : Text) : s.rebuild t = s.rebuildFrom 0 none t := by
  rw [rebuildFrom, ← parts_eq, List.flatMap_def, rebuild_eq]

/-- The text in front of a tag, or of the end of the document, is neutralised as a whole. -/
theorem rebuildFrom_append (s : Sanitizer) {w t : Text} (hw : '<' ∉ w) (position : Nat) (previous : Option Char)
    (ht : ∀ s, (partsFrom Tag.shape 0 (position + w.length) w.getLast? t).head? ≠ some (.plain s)) :
    s.rebuildFrom position previous (w ++ t) =
      neutralize w ++ s.rebuildFrom (position + w.length) (w.getLast?.or previous) t := by
  cases w with
  | nil => rfl
  | cons c w =>
    rw [rebuildFrom, Tag.opensWith_shape.partsFrom_append hw (List.cons_ne_nil c w) ht, List.getLast?_cons,
      Option.some_or]
    rfl

/-- What is written for a tag that is found stands in front of the rest. -/
lemma rebuildFrom_of_matchAt? (s : Sanitizer) {position : Nat} {previous : Option Char} {w t : Text} {m : Match}
    (h : Tag.shape.matchAt? position previous (w ++ t) = some m) (hw : m.text = w) (hne : w ≠ []) :
    s.rebuildFrom position previous (w ++ t) =
      s.written (.found m) ++ s.rebuildFrom (position + w.length) w.getLast? t := by
  rw [rebuildFrom, partsFrom_of_matchAt? h hw hne]
  rfl

/-- A text without brackets is neutralised as a whole. -/
lemma rebuild_of_not_mem (s : Sanitizer) {t : Text} (h : '<' ∉ t) : s.rebuild t = neutralize t := by
  have hwhole := s.rebuildFrom_append (t := []) h 0 none (by simp [partsFrom])
  rw [List.append_nil] at hwhole
  rw [rebuild_eq_rebuildFrom, hwhole]
  exact List.append_nil _

end Sanitizer

end Stencil.Markup
