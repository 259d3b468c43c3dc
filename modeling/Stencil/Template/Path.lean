import Stencil.Template.Defect

/-!
# Names and paths

A path names a value and a place inside it: a name, and behind it any number of names and indices, with points
between them. Names that begin with two underscores are reserved.

Main statement: a path that is read has at least one segment, and its segments joined by points are the text read
(`text_of_read`).
-/

namespace Stencil.Template

/-- The segments of a path: a name, and the keys or indices to follow inside its value. -/
abbrev Path := List Text

namespace Path

/-- A name that a template may use. -/
def identifier (s : Text) : Except Defect Text :=
  if !Text.isName s then .error (.invalidName s)
  else if s.take 2 == ['_', '_'] then .error .reservedName
  else .ok s

theorem eq_of_identifier {s name : Text} (h : identifier s = .ok name) : name = s := by
  unfold identifier at h
  split at h
  · simp at h
  · split at h
    · simp at h
    · exact (Except.ok.inj h).symm

/-- A segment behind the first: digits, or a name. -/
def segment (s : Text) : Except Defect Text :=
  if !s.isEmpty && s.all Char.isDigit then .ok s else identifier s

theorem eq_of_segment {s name : Text} (h : segment s = .ok name) : name = s := by
  unfold segment at h
  split at h
  · exact (Except.ok.inj h).symm
  · exact eq_of_identifier h

/-- The segments behind the first, up to the first that is none. -/
def segments : List Text → Except Defect (List Text)
  | [] => .ok []
  | s :: rest => do
    let first ← segment s
    let later ← segments rest
    return first :: later

theorem eq_of_segments {parts names : List Text} (h : segments parts = .ok names) : names = parts := by
  induction parts generalizing names with
  | nil => simpa [segments] using h.symm
  | cons s rest ih =>
    simp only [segments, bind, Except.bind, pure, Except.pure] at h
    split at h
    · simp at h
    · rename_i first hfirst
      split at h
      · simp at h
      · rename_i later hlater
        rw [← Except.ok.inj h, eq_of_segment hfirst, ih hlater]

/-- The path that a text writes. -/
def read (s : Text) : Except Defect Path :=
  match Text.split (· == '.') s with
  | [] => .ok []
  | s :: rest => do
    let first ← identifier s
    let later ← segments rest
    return first :: later

/-- A path in writing, with points between its segments. -/
def text (path : Path) : Text := Text.join ['.'] path

/-- A path that was read has a first segment, and written again it is the text that was read. -/
theorem text_of_read {s : Text} {path : Path} (h : read s = .ok path) : path ≠ [] ∧ path.text = s := by
  unfold read at h
  cases hs : Text.split (· == '.') s with
  | nil => exact absurd hs (Text.split_ne_nil _ _)
  | cons part rest =>
    simp only [hs, bind, Except.bind, pure, Except.pure] at h
    split at h
    · simp at h
    · rename_i first hfirst
      split at h
      · simp at h
      · rename_i later hlater
        have hpath : path = Text.split (· == '.') s := by
          rw [← Except.ok.inj h, eq_of_identifier hfirst, eq_of_segments hlater, hs]
        exact ⟨hpath ▸ Text.split_ne_nil _ _, by rw [hpath, text, Text.join_split]⟩

end Path

end Stencil.Template
