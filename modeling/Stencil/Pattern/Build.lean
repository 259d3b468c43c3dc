import Stencil.Pattern.Basic

/-!
# Building patterns

The words in which the library writes its patterns: characters and sets of characters, with the case of letters
counting or not, literal words, sequences, choices and repetitions.
-/

namespace Stencil.Pattern

/-- One pattern behind another. -/
instance : Append Pattern := ⟨.sequence⟩

/-- One character of a class. -/
def char (allowed : Char → Bool) : Pattern := .chars [allowed]

/-- Exactly one character. -/
def exactly (c : Char) : Pattern := .char (· == c)

/-- One character of a list. -/
def oneOf (chars : Text) : Pattern := .char chars.contains

/-- A text as it stands. -/
def literal (t : Text) : Pattern := .chars (t.map fun c d => d == c)

/-! ## Letters of either case -/

/-- The small letter that a character counts for when case does not: the long s counts for an s and the sign of kelvin
for a k, as Unicode folds them. -/
def fold (c : Char) : Char :=
  if c == '\u017f' then 's'
  else if c == '\u212a' then 'k'
  else c.toLower

/-- A text of small letters, whatever the case of the letters it is compared with. -/
def word (letters : Text) : Pattern := .chars (letters.map fun c d => fold d == c)

/-- Whether a character is a letter from `a` to `z` of either case. -/
def isLetter (c : Char) : Bool := (fold c).isLower

/-- Whether a character is a letter of either case or a digit. -/
def isLetterOrDigit (c : Char) : Bool := isLetter c || c.isDigit

/-- Whether a character is a hexadecimal digit. -/
def isHexDigit (c : Char) : Bool := c.isDigit || ('a' ≤ c && c ≤ 'f') || ('A' ≤ c && c ≤ 'F')

/-! ## Repetition and choice -/

/-- Any number of characters of a class, as many as possible. -/
def many (allowed : Char → Bool) : Pattern := .repetition false allowed 0 none

/-- One or more characters of a class, as many as possible. -/
def some1 (allowed : Char → Bool) : Pattern := .repetition false allowed 1 none

/-- A character of a class or none. -/
def atMostOne (allowed : Char → Bool) : Pattern := .repetition false allowed 0 (some 1)

/-- So many characters of a class. -/
def times (n : Nat) (allowed : Char → Bool) : Pattern := .repetition false allowed n (some n)

/-- Any number of blanks. -/
def blanks : Pattern := many Text.isBlank

/-- Any characters, as few as possible. -/
def anything : Pattern := .repetition true (fun _ => true) 0 none

/-- A pattern or nothing, the pattern preferred. -/
def optionally (p : Pattern) : Pattern := .choice p .empty

/-- One of several patterns, those in front preferred. No pattern at all never matches. -/
def oneOfThese : List Pattern → Pattern
  | [] => .char fun _ => false
  | [p] => p
  | p :: rest => .choice p (oneOfThese rest)

/-- One of several words of small letters, in either case. -/
def oneOfWords (words : List Text) : Pattern := oneOfThese (words.map word)

/-- One of several texts as they stand. -/
def oneOfLiterals (texts : List Text) : Pattern := oneOfThese (texts.map literal)

end Stencil.Pattern
