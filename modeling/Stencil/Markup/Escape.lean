import Stencil.Text.Basic

/-!
# Escaping values

Values are escaped before they are put into a document, so that no markup can come from them.

Main statement: an escaped text holds none of the five characters that markup is made of (`not_mem_escape`).
-/

namespace Stencil.Markup

/-- A character in a document: the six that have a meaning there are written as entities. -/
def escapeChar (c : Char) : Text :=
  match c with
  | '&' => "&amp;"
  | '<' => "&lt;"
  | '>' => "&gt;"
  | '"' => "&quot;"
  | '\'' => "&#x27;"
  | '\x60' => "&#96;"
  | c => [c]

/-- A text as it stands in a document. -/
def escape (t : Text) : Text := t.flatMap escapeChar

/-- How values are put into a document: escaped, or as they are. -/
inductive EscapeMode where
  | html
  | raw
deriving DecidableEq, Repr

/-- A value as it is put into a document. -/
def EscapeMode.apply : EscapeMode → Text → Text
  | .html, t => escape t
  | .raw, t => t

/-- The characters that tags and attributes are made of. -/
def markupChars : List Char := ['<', '>', '"', '\'', '\x60']

theorem not_mem_escapeChar {c d : Char} (hc : c ∈ markupChars) : c ∉ escapeChar d := by
  simp only [markupChars, List.mem_cons, List.not_mem_nil, or_false] at hc
  unfold escapeChar
  split <;> rcases hc with rfl | rfl | rfl | rfl | rfl <;> simp_all <;> rintro rfl <;> simp_all

/-- No character of markup is left in an escaped text. -/
theorem not_mem_escape {c : Char} (hc : c ∈ markupChars) (t : Text) : c ∉ escape t := by
  simp only [escape, List.mem_flatMap, not_exists, not_and]
  exact fun d _ => not_mem_escapeChar hc

end Stencil.Markup
