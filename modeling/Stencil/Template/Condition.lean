import Stencil.Number.Word
import Stencil.Template.Path
import Stencil.Text.Blank
import Stencil.Text.Quoted

/-!
# Conditions

A condition asks whether a value is truthy or whether two values have the same text, and may be negated any number of
times. It is read in two steps: the text is cut into words, quoted strings and the two comparison signs, and these are
matched against the three forms of a condition.
-/

namespace Stencil.Template

/-- What a condition looks at: a path into the context, or a constant. -/
inductive Operand where
  | path (path : Path)
  | text (text : Text)
  | int (value : Int)
  | bool (value : Bool)
deriving DecidableEq, Repr

/-- An operand in writing; a text stands between double quotes. -/
def Operand.spelling : Operand → Text
  | .path p => Path.text p
  | .text t => Text.quoted t
  | .int i => Text.ofInt i
  | .bool true => "true"
  | .bool false => "false"

/-- A question about the context with a yes or no for its answer. -/
inductive Condition where
  | truthy (operand : Operand)
  | equal (left : Operand) (right : Operand)
  | not (condition : Condition)
deriving DecidableEq, Repr

/-- The operands of a condition in the order in which they are written. -/
def Condition.operands : Condition → List Operand
  | .truthy a => [a]
  | .equal a b => [a, b]
  | .not condition => operands condition

/-! ## Lexemes -/

namespace Condition

/-- A part of a condition in writing. -/
inductive Lexeme where
  | word (word : Text)
  | quoted (text : Text)
  | equals
  | differs
deriving DecidableEq, Repr

/-- A word collected so far, latest character first; no lexeme if there is none. -/
def Lexeme.ofWord (collected : Text) : List Lexeme := if collected.isEmpty then [] else [.word collected.reverse]

/-- Where in a condition a character stands: in or between words, or behind an open quote. What has been collected is
held latest character first. -/
inductive Place where
  | word (collected : Text)
  | quote (mark : Char) (collected : Text)

/-- The lexemes of a condition; nothing if a quote stays open. A quoted string runs to the next quote of its own kind,
and the signs of comparison are recognised inside of words. -/
def lexemes? : Place → Text → Option (List Lexeme)
  | .word collected, [] => some (Lexeme.ofWord collected)
  | .quote _ _, [] => none
  | .quote mark collected, c :: rest =>
    if c = mark then (lexemes? (.word []) rest).map (.quoted collected.reverse :: ·)
    else lexemes? (.quote mark (c :: collected)) rest
  | .word collected, '=' :: '=' :: rest =>
    (lexemes? (.word []) rest).map fun later => Lexeme.ofWord collected ++ .equals :: later
  | .word collected, '!' :: '=' :: rest =>
    (lexemes? (.word []) rest).map fun later => Lexeme.ofWord collected ++ .differs :: later
  | .word collected, c :: rest =>
    if Text.isBlank c then (lexemes? (.word []) rest).map (Lexeme.ofWord collected ++ ·)
    else if c == '"' || c == '\'' then (lexemes? (.quote c []) rest).map (Lexeme.ofWord collected ++ ·)
    else lexemes? (.word (c :: collected)) rest

/-! ## Reading -/

/-- Whether an integer fits in sixty-four bits with sign. -/
def fits (i : Int) : Bool := -(Word.negatives : Int) ≤ i && i < Word.negatives

/-- The operand that a word is: a truth value, an integer of sixty-four bits, or else a path. -/
def operandOfWord (word : Text) : Except Defect Operand :=
  if word = "true" then .ok (.bool true)
  else if word = "false" then .ok (.bool false)
  else
    match (Text.toInt? word).filter fits with
    | some i => .ok (.int i)
    | none => (Path.read word).map .path

/-- The operand that a lexeme is. -/
def operand : Lexeme → Except Defect Operand
  | .quoted t => .ok (.text t)
  | .word word => operandOfWord word
  | .equals => .error .operatorWithoutOperand
  | .differs => .error .operatorWithoutOperand

/-- A condition without a leading `not`: one operand, or two with a sign between them. -/
def comparison : List Lexeme → Except Defect Condition
  | [a] => (operand a).map .truthy
  | [a, .equals, b] => do
    let left ← operand a
    let right ← operand b
    return .equal left right
  | [a, .differs, b] => do
    let left ← operand a
    let right ← operand b
    return .not (.equal left right)
  | _ => .error .unsupportedCondition

/-- A condition with any number of leading `not`. -/
def ofLexemes : List Lexeme → Except Defect Condition
  | .word word :: rest => if word = "not" then (ofLexemes rest).map .not else comparison (.word word :: rest)
  | lexemes => comparison lexemes

/-- The condition that a text writes. -/
def read (t : Text) : Except Defect Condition :=
  match lexemes? (.word []) t with
  | none => .error .unterminatedString
  | some lexemes => ofLexemes lexemes

end Condition

end Stencil.Template
