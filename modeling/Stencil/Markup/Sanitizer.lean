import Stencil.Markup.Tag

/-!
# Sanitising a document

The last step of a render works on the whole document. Elements that are dangerous with their content, and comments,
are removed until nothing is left to remove or a number of rounds is used up; then every tag is rebuilt or dropped, and
the text between tags is neutralised.
-/

namespace Stencil.Markup

open Pattern

/-- Elements that are removed together with their content. -/
def contentTags : List Text := ["script", "style", "iframe", "object", "embed", "template", "noscript"]

/-- An element with its content, up to its first end. -/
def element (name : Text) : Pattern :=
  exactly '<' ++ blanks ++ word name ++ .wordBoundary ++ many (· != '>') ++ exactly '>' ++ anything ++
    exactly '<' ++ blanks ++ exactly '/' ++ blanks ++ word name ++ blanks ++ exactly '>'

/-- A comment. -/
def comment : Pattern := literal "<!--" ++ anything ++ literal "-->"

/-- Everything that one round removes, in the order in which it is removed. -/
def removed : List Pattern := contentTags.map element ++ [comment]

/-- A text without the matches of a pattern. -/
def remove (pattern : Pattern) (t : Text) : Text := pattern.replaceAll (fun _ => []) t

/-- One round of removal. -/
def sweep (t : Text) : Text := removed.foldl (fun t pattern => remove pattern t) t

/-- The greatest number of rounds. -/
def maxRounds : Nat := 8

/-- Rounds of removal until one removes nothing, so many at most. -/
def sweepRounds : Nat → Text → Text
  | 0, t => t
  | rounds + 1, t =>
    let swept := sweep t
    if swept.length = t.length then swept else sweepRounds rounds swept

/-- The tags that a document may keep. -/
structure Sanitizer where
  allowed : List Text

namespace Sanitizer

/-- The tags that are allowed anyway and some more, without those that are forbidden. -/
def ofExtraTags (extra : List Text) : Sanitizer :=
  ⟨(defaultTags ++ extra.map Text.toLower).filter fun tag => !forbiddenTags.contains tag⟩

/-- The document with every tag rebuilt or dropped, and the text between tags neutralised. -/
def rebuild (s : Sanitizer) (t : Text) : Text :=
  (Tag.shape.parts t).flatMap fun
    | .plain plain => neutralize plain
    | .found m => ((Tag.ofMatch? s.allowed m).map Tag.text).getD []

/-- The document that is safe to hand out. -/
def sanitize (s : Sanitizer) (t : Text) : Text := s.rebuild (sweepRounds maxRounds t)

end Sanitizer

end Stencil.Markup
