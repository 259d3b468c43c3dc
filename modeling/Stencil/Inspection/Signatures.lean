import Stencil.Issue
import Stencil.Pattern.Build
import Stencil.Pattern.Matches

/-!
# Signatures of attacks

Four sets of rules, each for one category of issues. A rule is a pattern; its name stays in this module, and an issue
only carries the text found.

Main statement: the first match of a set is what the first issue of a scan shows (`head?_scan`).
-/

namespace Stencil.Inspection

open Pattern

/-! ## Code in templates -/

namespace TemplateInjection

/-- An attribute between double underscores that leads into the internals of an interpreter. -/
def internalAttribute : Pattern :=
  literal "__" ++
    oneOfWords ["class", "bases", "base", "mro", "subclasses", "globals", "builtins", "import", "init", "dict",
      "getattribute", "getattr", "code", "closure", "func", "self", "module", "reduce", "reduce_ex", "loader",
      "spec"] ++
    literal "__"

/-- Access to any attribute between double underscores. -/
def attributeChain : Pattern :=
  exactly '.' ++ blanks ++ literal "__" ++ some1 (fun c => c.isAlphanum || c == '_') ++ literal "__"

/-- The opener of a statement block. -/
def statementBlock : Pattern := literal ['{', '%']

/-- An address with a scheme that reads files or runs code. -/
def dangerousScheme : Pattern :=
  .wordBoundary ++
    oneOfWords ["file", "gopher", "dict", "ldap", "jar", "php", "expect", "netdoc", "phar"] ++ literal "://"

/-- The rules for a whole text. -/
def rules : List Pattern := [internalAttribute, attributeChain, statementBlock, dangerousScheme]

/-- A call of a function that evaluates, imports or inspects. -/
def builtinCall : Pattern :=
  .wordBoundary ++
    oneOfWords ["exec", "eval", "compile", "import", "open", "system", "popen", "subprocess", "getattr", "setattr",
      "delattr", "globals", "locals", "vars", "builtins"] ++
    blanks ++ exactly '('

/-- A bracket of a call or an index. -/
def callOrIndex : Pattern := oneOf "()[]"

/-- A character with a meaning for a shell. -/
def shellCharacter : Pattern := oneOf [';', '|', '&', '\x60', '$']

/-- A character of an operator. -/
def operator : Pattern := oneOf "*+/%^~<>=!-"

/-- The beginning of an address. -/
def address : Pattern :=
  .wordBoundary ++ .char isLetter ++ many (fun c => isLetterOrDigit c || c == '+' || c == '.' || c == '-') ++
    literal "://"

/-- A character given by its number. -/
def escapedCharacter : Pattern :=
  .choice (literal "\\x" ++ times 2 isHexDigit) (literal "\\u" ++ times 4 isHexDigit)

/-- The rules for the inside of expression blocks. -/
def expressionRules : List Pattern :=
  [builtinCall, callOrIndex, shellCharacter, operator, address, escapedCharacter]

end TemplateInjection

/-- A block that a template language evaluates. The text inside is the only group that takes part in a match. -/
def expressionBlock : Pattern :=
  oneOfThese [
    literal ['{', '{'] ++ .group 1 anything ++ literal ['}', '}'],
    literal ['{', '%'] ++ .group 2 anything ++ literal ['%', '}'],
    literal ['$', '{'] ++ .group 3 anything ++ literal ['}'],
    literal ['#', '{'] ++ .group 4 anything ++ literal ['}']]

/-! ## Scripts in markup -/

namespace ScriptInjection

/-- The beginning of a script element. -/
def scriptOpen : Pattern := exactly '<' ++ blanks ++ word "script" ++ .wordBoundary

/-- The end of a script element. -/
def scriptClose : Pattern := exactly '<' ++ blanks ++ exactly '/' ++ blanks ++ word "script" ++ blanks ++ exactly '>'

/-- A tag with an attribute that handles an event. -/
def eventHandler : Pattern :=
  exactly '<' ++ blanks ++ atMostOne (· == '/') ++ .char isLetter ++ many (· != '>') ++
    .char (fun c => Text.isBlank c || c == '/' || c == '"' || c == '\'') ++
    word "on" ++ some1 isLetter ++ blanks ++ exactly '='

/-- The scheme of an address that runs a script. -/
def scriptAddress : Pattern :=
  .wordBoundary ++ oneOfWords ["javascript", "vbscript", "livescript"] ++ blanks ++ exactly ':'

/-- An address that holds a document or a script itself. -/
def dataAddress : Pattern :=
  .wordBoundary ++ word "data" ++ blanks ++ exactly ':' ++ blanks ++
    oneOfThese [
      word "text/html",
      word "application/" ++ optionally (word "x-") ++ word "javascript",
      word "image/svg+xml"]

/-- A tag that embeds or refers to another document. -/
def embeddingTag : Pattern :=
  exactly '<' ++ blanks ++
    oneOfWords ["iframe", "frame", "frameset", "object", "embed", "applet", "base", "meta", "form", "link", "svg",
      "math"] ++
    .wordBoundary

/-- An expression in a style. -/
def styleExpression : Pattern := .wordBoundary ++ word "expression" ++ blanks ++ exactly '('

/-- An attribute that holds the document of a frame. -/
def frameDocument : Pattern := .wordBoundary ++ word "srcdoc" ++ blanks ++ exactly '='

/-- An attribute that takes an address and has an encoded character in it. -/
def encodedAddress : Pattern :=
  .wordBoundary ++
    oneOfWords ["href", "src", "action", "formaction", "data", "background", "xlink:href"] ++
    blanks ++ exactly '=' ++ blanks ++ atMostOne (fun c => c == '"' || c == '\'') ++
    many (fun c => !(c == '"' || c == '\'' || c == '>' || Text.isBlank c)) ++ literal "&#"

/-- All rules. -/
def rules : List Pattern :=
  [scriptOpen, scriptClose, eventHandler, scriptAddress, dataAddress, embeddingTag, styleExpression, frameDocument,
    encodedAddress]

end ScriptInjection

/-! ## Ways out of a directory -/

namespace PathTraversal

/-- The parent directory in front of a separator. -/
def parent : Pattern := literal ".." ++ oneOf "/\\"

/-- The parent directory at the end of a path. -/
def parentAtEnd : Pattern := oneOf "/\\" ++ literal ".." ++ .choice .lineEnd (.char Text.isBlank)

/-- Points and separators given by their numbers. -/
def encodedParent : Pattern := oneOfWords ["%2e%2e", "%2e.", ".%2e", "%252e", "%c0%ae", "%c0%af"]

/-- What may stand in front of a path: nothing, a blank, a quote, a bracket or an equals sign. -/
def pathStart : Pattern :=
  .choice .lineStart (.char fun c => Text.isBlank c || c == '\'' || c == '"' || c == '(' || c == '=')

/-- A path that begins with the letter of a drive. -/
def driveLetter : Pattern := pathStart ++ .char isLetter ++ exactly ':' ++ oneOf "\\/"

/-- A path that begins with the name of a machine. -/
def machinePath : Pattern :=
  literal "\\\\" ++ some1 (fun c => c.isAlphanum || c == '.' || c == '_' || c == '-') ++ exactly '\\'

/-- A path into a directory of the operating system. -/
def systemDirectory : Pattern :=
  pathStart ++ exactly '/' ++
    oneOfLiterals ["etc", "proc", "sys", "root", "dev", "boot", "var/log", "windows", "winnt"] ++
    .choice (exactly '/') .wordBoundary

/-- The address of a file. -/
def fileAddress : Pattern := .wordBoundary ++ word "file" ++ literal ":/"

/-- All rules. -/
def rules : List Pattern :=
  [parent, parentAtEnd, encodedParent, driveLetter, machinePath, systemDirectory, fileAddress]

end PathTraversal

/-! ## Sets of rules -/

/-- Rules that find issues of one category. -/
structure SignatureSet where
  category : Category
  rules : List Pattern

namespace SignatureSet

/-- Code in templates, looked for in a whole text. -/
def templateInjection : SignatureSet := ⟨.templateInjection, TemplateInjection.rules⟩

/-- Code in templates, looked for inside expression blocks. -/
def expressionInjection : SignatureSet := ⟨.templateInjection, TemplateInjection.expressionRules⟩

/-- Scripts in markup. -/
def scriptInjection : SignatureSet := ⟨.scriptInjection, ScriptInjection.rules⟩

/-- Ways out of a directory. -/
def pathTraversal : SignatureSet := ⟨.pathTraversal, PathTraversal.rules⟩

/-- All matches of all rules, rule by rule and from left to right. -/
def allMatches (set : SignatureSet) (t : Text) : List Match := set.rules.flatMap fun rule => rule.matchesIn t

/-- The span of a match. -/
def span (m : Match) : Nat × Nat := (m.start, m.stop)

/-- The matches of which the span was not seen before. -/
def distinct : List (Nat × Nat) → List Match → List Match
  | _, [] => []
  | seen, m :: rest => if seen.contains (span m) then distinct seen rest else m :: distinct (span m :: seen) rest

/-- One issue for each span of text that a rule matches. -/
def scan (set : SignatureSet) (severity : Severity) (t : Text) : List Issue :=
  (distinct [] (set.allMatches t)).map fun m => .ofMatch set.category severity m.text

/-- The first match of the first rule that has one. -/
def firstMatch? (set : SignatureSet) (t : Text) : Option Match := set.rules.findSome? fun rule => rule.firstIn? t

theorem firstMatch?_eq_head? (set : SignatureSet) (t : Text) : set.firstMatch? t = (set.allMatches t).head? := by
  unfold firstMatch? allMatches
  induction set.rules with
  | nil => rfl
  | cons rule rest ih =>
    rw [List.findSome?_cons, firstIn?_eq_head?, List.flatMap_cons, List.head?_append, ih]
    cases (rule.matchesIn t).head? <;> rfl

/-- The first match is what the first issue of a scan shows. -/
theorem head?_scan (set : SignatureSet) (severity : Severity) (t : Text) :
    (set.scan severity t).head? = (set.firstMatch? t).map fun m => .ofMatch set.category severity m.text := by
  rw [firstMatch?_eq_head?, scan, List.head?_map]
  cases set.allMatches t with
  | nil => rfl
  | cons m rest => simp [distinct]

end SignatureSet

end Stencil.Inspection
