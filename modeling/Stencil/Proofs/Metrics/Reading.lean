import Stencil.Proofs.Json.Parts
import Stencil.Proofs.Metrics.Series

/-!
# Labels are read back from their writing

Labels whose names are names (`Labels.Named`) are read from their writing, whatever their values are. A reader looks at
one character after the other (`Reader.step`) and comes through the writing of a label to its end with the label
(`Reader.foldl_labelText`), so it comes through the writing of all labels with all of them (`Labels.read?_text`). No
line ends in between (`Labels.newline_not_mem_text`).
-/

namespace Stencil.Metrics

/-! ## Escaped values -/

/-- A character with a text in the place of it, if it is a given one. -/
def inPlaceOf (c : Char) (t : Text) (d : Char) : Text := if d = c then t else [d]

/-- Values are escaped as if the three characters were replaced one after the other, the backslash first. -/
theorem flatMap_escapeChar_eq (value : Text) :
    value.flatMap Labels.escapeChar =
      ((value.flatMap (inPlaceOf '\\' ['\\', '\\'])).flatMap (inPlaceOf '"' ['\\', '"'])).flatMap
        (inPlaceOf '\n' ['\\', 'n']) := by
  rw [List.flatMap_assoc, List.flatMap_assoc]
  refine List.flatMap_congr fun c _ => ?_
  unfold Labels.escapeChar
  split
  · rfl
  · rfl
  · rfl
  · rename_i hback hquote hbreak
    have hkept {d : Char} (hd : c ≠ d) (t : Text) : inPlaceOf d t c = [c] := if_neg hd
    simp [hkept hback, hkept hquote, hkept hbreak]

/-- No escape of a character has a newline in it. -/
lemma newline_not_mem_escapeChar (c : Char) : '\n' ∉ Labels.escapeChar c := by
  unfold Labels.escapeChar
  split
  · decide
  · decide
  · decide
  · rename_i hbreak
    simpa using Ne.symm hbreak

/-! ## Reading labels -/

/-- Where a reader of labels stands: in a name, in front of a value, in a value, behind a backslash in a value, behind a
value, or in what is no writing of labels. It carries what it has read. -/
inductive Reader where
  | name (front : Labels) (name : Text)
  | opening (front : Labels) (name : Text)
  | value (front : Labels) (name value : Text)
  | escaped (front : Labels) (name value : Text)
  | closed (labels : Labels)
  | broken
deriving DecidableEq, Repr

namespace Reader

/-- The character that stands for itself, or for the end of a line, behind a backslash. -/
def unescaped? : Char → Option Char
  | '\\' => some '\\'
  | '"' => some '"'
  | 'n' => some '\n'
  | _ => none

/-- A reader behind one character more. -/
def step : Reader → Char → Reader
  | name front read, c => if c = '=' then opening front read else name front (read ++ [c])
  | opening front read, c => if c = '"' then value front read [] else broken
  | value front label read, c =>
    if c = '"' then closed (front ++ [(label, read)])
    else if c = '\\' then escaped front label read
    else value front label (read ++ [c])
  | escaped front label read, c =>
    match unescaped? c with
    | some d => value front label (read ++ [d])
    | none => broken
  | closed labels, c => if c = ',' then name labels [] else broken
  | broken, _ => broken

/-- A name is read to its end. -/
lemma foldl_name {label : Text} (h : '=' ∉ label) (front : Labels) (read : Text) :
    label.foldl step (name front read) = name front (read ++ label) := by
  induction label generalizing read with
  | nil => rw [List.append_nil, List.foldl_nil]
  | cons c label ih =>
    obtain ⟨hc, hlabel⟩ := not_or.1 (mt List.mem_cons.2 h)
    rw [List.foldl_cons, step, if_neg (Ne.symm hc), ih hlabel, List.append_assoc]
    rfl

/-- An escaped character is read as the character. -/
lemma foldl_escapeChar (front : Labels) (label read : Text) (c : Char) :
    (Labels.escapeChar c).foldl step (value front label read) = value front label (read ++ [c]) := by
  unfold Labels.escapeChar
  split
  · rfl
  · rfl
  · rfl
  · rename_i hback hquote hbreak
    rw [List.foldl_cons, List.foldl_nil, step, if_neg hquote, if_neg hback]

/-- The reader takes the escapes of a value back, character by character. -/
lemma foldl_value (front : Labels) (label read v : Text) :
    (v.flatMap Labels.escapeChar).foldl step (value front label read) = value front label (read ++ v) := by
  induction v generalizing read with
  | nil => rw [List.flatMap_nil, List.foldl_nil, List.append_nil]
  | cons c v ih =>
    rw [List.flatMap_cons, List.foldl_append, foldl_escapeChar, ih, List.append_assoc]
    rfl

/-- A label is read to its end. -/
theorem foldl_labelText {label : Text × Text} (h : '=' ∉ label.1) (front : Labels) :
    (Labels.labelText label).foldl step (name front []) = closed (front ++ [label]) := by
  rw [Labels.labelText, List.foldl_append, List.foldl_append, List.foldl_append, foldl_name h, List.nil_append]
  show [_].foldl step ((label.2.flatMap Labels.escapeChar).foldl step (value front label.1 [])) = _
  rw [foldl_value]
  rfl

end Reader

namespace Labels

/-- Whether all names are names. -/
def Named (labels : Labels) : Prop := ∀ label ∈ labels, Text.isName label.1 = true

/-- The labels that a text writes. -/
def read? (t : Text) : Option Labels :=
  if t.isEmpty then some []
  else match t.foldl Reader.step (.name [] []) with
    | .closed labels => some labels
    | _ => none

/-- A name has only characters of names. -/
lemma isNameChar_of_isName {name : Text} (h : Text.isName name = true) : ∀ c ∈ name, Text.isNameChar c = true := by
  cases name with
  | nil => exact fun c hc => absurd hc List.not_mem_nil
  | cons c rest =>
    rw [Text.isName, Bool.and_eq_true, List.all_eq_true] at h
    refine List.forall_mem_cons.2 ⟨?_, h.2⟩
    have hfirst := h.1
    simp only [Text.isNameChar, Char.isAlphanum, Bool.or_eq_true] at hfirst ⊢
    tauto

lemma not_mem_of_isName {name : Text} (h : Text.isName name = true) {c : Char} (hc : Text.isNameChar c = false) :
    c ∉ name := by
  intro hmem
  rw [isNameChar_of_isName h c hmem] at hc
  exact Bool.false_ne_true hc.symm

lemma Named.perm {labels others : Labels} (h : labels.Named) (hperm : labels.Perm others) : others.Named :=
  fun label hlabel => h label (hperm.mem_iff.2 hlabel)

lemma Named.key {labels : Labels} (h : labels.Named) : (key labels).Named := h.perm (key_perm labels).symm

lemma Named.append {labels more : Labels} (h : labels.Named) (hmore : more.Named) : Named (labels ++ more) :=
  List.forall_mem_append.2 ⟨h, hmore⟩

lemma text_cons (label next : Text × Text) (rest : Labels) :
    text (label :: next :: rest) = labelText label ++ ',' :: text (next :: rest) := by
  rw [text, List.map_cons, List.map_cons, Text.join_cons, List.append_assoc]
  rfl

lemma text_eq_nil_iff {labels : Labels} : text labels = [] ↔ labels = [] := by
  match labels with
  | [] => simp [text, Text.join]
  | [label] => simp [text, Text.join, labelText]
  | label :: next :: rest => simp [text_cons]

/-- The last label stands behind a comma. -/
lemma text_concat {labels : Labels} (hne : labels ≠ []) (last : Text × Text) :
    text (labels ++ [last]) = text labels ++ ',' :: labelText last := by
  induction labels with
  | nil => exact absurd rfl hne
  | cons label rest ih =>
    cases rest with
    | nil => exact text_cons label last []
    | cons next rest =>
      have hrest := ih (List.cons_ne_nil _ _)
      rw [List.cons_append] at hrest
      rw [List.cons_append, List.cons_append, text_cons, text_cons, hrest, List.append_assoc]
      rfl

/-- The reader takes the labels back from their text. -/
lemma foldl_text {labels : Labels} (h : labels.Named) (hne : labels ≠ []) (front : Labels) :
    (text labels).foldl Reader.step (.name front []) = .closed (front ++ labels) := by
  induction labels generalizing front with
  | nil => exact absurd rfl hne
  | cons label rest ih =>
    obtain ⟨hlabel, hrest⟩ := List.forall_mem_cons.1 h
    have hequals : '=' ∉ label.1 := not_mem_of_isName hlabel rfl
    cases rest with
    | nil => exact Reader.foldl_labelText hequals front
    | cons next rest =>
      rw [text_cons, List.foldl_append, Reader.foldl_labelText hequals, List.foldl_cons]
      exact (ih hrest (List.cons_ne_nil _ _) (front ++ [label])).trans (by rw [List.append_assoc]; rfl)

/-- Labels are read from their writing. -/
theorem read?_text {labels : Labels} (h : labels.Named) : read? (text labels) = some labels := by
  by_cases hne : labels = []
  · rw [hne]
    rfl
  · have hempty : (text labels).isEmpty = false := List.isEmpty_eq_false_iff.2 (mt text_eq_nil_iff.1 hne)
    rw [read?, hempty, if_neg Bool.false_ne_true, foldl_text h hne []]
    rfl

lemma text_inj {labels others : Labels} (h : labels.Named) (h' : others.Named) :
    text labels = text others ↔ labels = others := by
  refine ⟨fun heq => Option.some.inj ?_, fun heq => heq ▸ rfl⟩
  rw [← read?_text h, heq, read?_text h']

lemma newline_not_mem_labelText {label : Text × Text} (h : Text.isName label.1 = true) : '\n' ∉ labelText label := by
  have hvalue : '\n' ∉ label.2.flatMap escapeChar := fun hmem => by
    obtain ⟨c, -, hc⟩ := List.mem_flatMap.1 hmem
    exact newline_not_mem_escapeChar c hc
  simp [labelText, not_mem_of_isName h (c := '\n') rfl, hvalue]

/-- No line ends in the writing of labels. -/
theorem newline_not_mem_text {labels : Labels} (h : labels.Named) : '\n' ∉ text labels := by
  induction labels with
  | nil => exact List.not_mem_nil
  | cons label rest ih =>
    obtain ⟨hlabel, hrest⟩ := List.forall_mem_cons.1 h
    cases rest with
    | nil => exact newline_not_mem_labelText hlabel
    | cons next rest =>
      rw [text_cons, List.mem_append, List.mem_cons]
      rintro (hmem | hmem | hmem)
      · exact newline_not_mem_labelText hlabel hmem
      · exact absurd hmem (by decide)
      · exact ih hrest hmem

lemma text_key_eq_iff {labels others : Labels} (h : labels.Named) (h' : others.Named) :
    text (key labels) = text (key others) ↔ labels.Perm others := by
  rw [text_inj h.key h'.key, key_eq_iff]

end Labels

end Stencil.Metrics
