import Stencil.Budget
import Stencil.Inspection.Signatures
import Stencil.Json.Value
import Stencil.Markup.Escape
import Stencil.PersonalData
import Stencil.Template.Record

/-!
# Inspecting templates and values

A validator looks through the text of templates and of included files for everything that the signatures and the
detector of personal data find, and through the values of callers for code and, where values are not escaped, for
markup. Values come out with control characters removed.
-/

namespace Stencil.Inspection

open Pattern Json

/-- How a validator is set up. -/
structure Settings where
  maxContentBytes : Nat
  maxVariableBytes : Nat
  personalDataSeverity : Severity
  rejectsMarkup : Bool
deriving DecidableEq, Repr

/-- The settings of a budget. Markup in values is rejected where values are not escaped, as it would be dropped
silently there. -/
def Settings.ofBudget (b : Budget) (severity : Severity) (mode : Markup.EscapeMode) : Settings :=
  ⟨b.maxContentBytes, b.maxVariableBytes, severity, mode = .raw⟩

/-- A validator: its settings, and what finds personal data. -/
structure Validator where
  settings : Settings
  detector : PersonalData.Detector

/-! ## Text of templates -/

/-- A comment that is a directive: its first word is a keyword, and it ends with that word or goes on behind a blank. -/
def directiveComment : Pattern :=
  literal "<!--" ++ blanks ++ oneOfLiterals ["FOR", "END", "IF", "ELSE", "SECTION", "INCLUDE"] ++
    optionally (.char Text.isBlank ++ anything) ++ literal "-->"

/-- A text with directives replaced by as many spaces as they have bytes. They are never put out, so scripts are not
looked for in them. -/
def blankDirectives (t : Text) : Text :=
  directiveComment.replaceAll (fun m => List.replicate (Text.byteLength m.text) ' ') t

/-- The inside of an expression block that was found. -/
def expressionBody (m : Match) : Text :=
  ((((m.group? 1).or (m.group? 2)).or (m.group? 3)).or (m.group? 4)).getD []

/-- The issues of the inside of all expression blocks. -/
def expressionIssues (t : Text) : List Issue :=
  (expressionBlock.findAll t).flatMap fun m => SignatureSet.expressionInjection.scan .blocking (expressionBody m)

namespace Validator

/-- Everything that is found in the text of a template. Of personal data an issue shows the kind only. -/
def contentIssues (v : Validator) (t : Text) : List Issue :=
  SignatureSet.templateInjection.scan .blocking t ++ expressionIssues t ++
    SignatureSet.scriptInjection.scan .blocking (blankDirectives t) ++ SignatureSet.pathTraversal.scan .blocking t ++
    (v.detector t).map fun f =>
      .ofMatch .personalData v.settings.personalDataSeverity ('[' :: f.kind ++ [']'])

/-- The report of the text of a template. A text that is too long is not looked at. -/
def validateContent (v : Validator) (t : Text) : Except Fault Report :=
  if v.settings.maxContentBytes < Text.byteLength t then .error (.exhausted .size)
  else .ok (.ofIssues (v.contentIssues t))

/-! ## Values -/

/-- The greatest depth of a part of a value; the value itself has depth zero. -/
def maxValueDepth : Nat := 32

/-- A text without control characters, but with its tabs and line breaks. -/
def stripControls (t : Text) : Text :=
  t.filter fun c => !Text.isControl c || c == '\t' || c == '\n' || c == '\r'

/-- Refuses a text with template code or an expression block in it, and one with scripts if markup is rejected. -/
def checkText (v : Validator) (t : Text) : Except Fault Unit :=
  if (SignatureSet.templateInjection.firstMatch? t).isSome || expressionBlock.occursIn t then
    .error (.violation .templateInjection)
  else if v.settings.rejectsMarkup && (SignatureSet.scriptInjection.firstMatch? t).isSome then
    .error (.violation .scriptInjection)
  else .ok ()

/-- A text without control characters that has been checked. -/
def cleanText (v : Validator) (t : Text) : Except Fault Text := do
  let cleaned := stripControls t
  v.checkText cleaned
  return cleaned

/-- A part of the value of a variable, cleaned; nothing in it may lie deeper than so many levels. -/
def clean (v : Validator) (name : Text) : Nat → Value → Except Fault Value
  | _, .string t => (v.cleanText t).map .string
  | room, .array items => (cleanItems room items).map .array
  | room, .object members => (cleanMembers room members []).map .object
  | _, .null => .ok .null
  | _, .bool b => .ok (.bool b)
  | _, .number n => .ok (.number n)
where
  /-- The items of an array, cleaned one after the other. -/
  cleanItems : Nat → List Value → Except Fault (List Value)
    | _, [] => .ok []
    | 0, _ :: _ => .error (.context (.deepVariable name))
    | room + 1, item :: rest => do
      let first ← clean v name room item
      let later ← cleanItems (room + 1) rest
      return first :: later
  /-- The members of an object, cleaned one after the other and put into a table. -/
  cleanMembers : Nat → List (Text × Value) → Table Text Value → Except Fault (Table Text Value)
    | _, [], done => .ok done
    | room, (key, value) :: rest, done => do
      -- the name of a member is checked even where its value lies too deep
      let cleanKey ← v.cleanText key
      match room with
      | 0 => .error (.context (.deepVariable name))
      | room + 1 => do
        let cleanValue ← clean v name room value
        cleanMembers (room + 1) rest (Table.insert done cleanKey cleanValue)

/-- The value of a variable, cleaned: its name is one that a variable may have, and it is written in no more bytes than
allowed. -/
def validateValue (v : Validator) (name : Text) (value : Value) : Except Fault Value :=
  if !Template.isVariableName name then .error (.context (.invalidVariableName name))
  else if v.settings.maxVariableBytes < Text.byteLength value.compact then
    .error (.context (.oversizedVariable name v.settings.maxVariableBytes))
  else v.clean name maxValueDepth value

end Validator

end Stencil.Inspection
