import Stencil.Template.Program
import Stencil.Template.Token

/-!
# From tokens to programs

A program is read token by token. What has been read so far is an outline: the blocks that are open, innermost first,
and the nodes of the innermost body. The blocks are held as data and not by recursion, so that the depth of a template
is bounded by a limit and by nothing else.
-/

namespace Stencil.Template

/-- The bounds that a template keeps: the bytes of an expression or directive, and the blocks open at once. -/
structure Limits where
  maxExpressionLength : Nat := 256
  maxNesting : Nat := 10
deriving DecidableEq, Repr

/-- What opened a block. Behind `ELSE` a condition holds the body that is already complete. -/
inductive Opening where
  | loop (name : Text) (collection : Path)
  | conditional (condition : Condition)
  | alternative (condition : Condition) (body : Program)
  | region (name : Text)

/-- The keyword that opened a block and has to stand behind its `END`. -/
def Opening.keyword : Opening → Text
  | .loop _ _ => "FOR"
  | .conditional _ => "IF"
  | .alternative _ _ => "IF"
  | .region _ => "SECTION"

/-- The node of a block whose last body is complete. -/
def Opening.node (last : Program) : Opening → Node
  | .loop name collection => .loop name collection last
  | .conditional condition => .conditional condition last []
  | .alternative condition body => .conditional condition body last
  | .region name => .region name last

/-- An open block: what opened it and where, and the nodes in front of it in the body around it, latest first. -/
structure Frame where
  opening : Opening
  line : Nat
  before : List Node

/-- A program read in part: the open blocks, innermost first, and the nodes of the innermost body, latest first. -/
structure Outline where
  frames : List Frame
  nodes : List Node

namespace Outline

/-- The outline of nothing. -/
def empty : Outline := ⟨[], []⟩

/-- Adds a node to the innermost body. -/
def add (o : Outline) (node : Node) : Outline := { o with nodes := node :: o.nodes }

/-- Opens a block, if one more may be open. -/
def openBlock (limits : Limits) (line : Nat) (o : Outline) (opening : Opening) : Except Refusal Outline :=
  if limits.maxNesting ≤ o.frames.length then .error .tooDeep
  else .ok ⟨⟨opening, line, o.nodes⟩ :: o.frames, []⟩

/-- Turns from the first body of the innermost condition to the second. -/
def turn (o : Outline) : Except Defect Outline :=
  match o.frames with
  | ⟨.conditional condition, line, before⟩ :: outer =>
    .ok ⟨⟨.alternative condition o.nodes.reverse, line, before⟩ :: outer, []⟩
  | _ => .error .misplacedElse

/-- Closes the innermost block, which the keyword behind `END` has to name. -/
def closeBlock (o : Outline) (keyword : Text) : Except Defect Outline :=
  match o.frames with
  | [] => .error (.endWithoutBlock keyword)
  | frame :: outer =>
    if frame.opening.keyword = keyword then .ok ⟨outer, frame.opening.node o.nodes.reverse :: frame.before⟩
    else .error (.mismatchedEnd keyword frame.opening.keyword frame.line)

/-- A path without the quotes around it, if the same quote stands at both ends. -/
def unquote (t : Text) : Text :=
  match t with
  | mark :: rest =>
    if (mark == '"' || mark == '\'') && rest.getLast? == some mark then rest.dropLast else t
  | [] => t

/-- Names the line of a defect. -/
def locate {α : Type} (line : Nat) (result : Except Defect α) : Except Refusal α := result.mapError (.defect line ·)

/-- The name and the collection of a loop. -/
def loopOf (words : List Text) : Except Defect Opening :=
  match words with
  | [name, word, collection] =>
    if word = "IN" then do
      let name ← Path.identifier name
      let collection ← Path.read collection
      return .loop name collection
    else .error .malformedLoop
  | _ => .error .malformedLoop

/-- Takes a directive: its keyword, and what stands behind it. -/
def directive (limits : Limits) (line : Nat) (o : Outline) (keyword rest : Text) : Except Refusal Outline :=
  if keyword = "FOR" then do
    let opening ← locate line (loopOf (Text.words rest))
    openBlock limits line o opening
  else if keyword = "IF" then
    if rest.isEmpty then .error (.defect line .missingCondition)
    else do
      let condition ← locate line (Condition.read rest)
      openBlock limits line o (.conditional condition)
  else if keyword = "ELSE" then
    if !rest.isEmpty then .error (.defect line .argumentsOfElse) else locate line (turn o)
  else if keyword = "SECTION" then do
    let name ← locate line (Path.identifier rest)
    openBlock limits line o (.region name)
  else if keyword = "INCLUDE" then
    let path := unquote rest
    if path.isEmpty then .error (.defect line .missingInclusionPath) else .ok (o.add (.inclusion path))
  else if keyword = "END" then locate line (closeBlock o rest)
  else .error (.defect line .unknownDirective)

/-- The node of an expression. -/
def substitution (inner raw : Text) : Except Defect Node :=
  if inner.isEmpty then .error .emptyExpression else (Path.read inner).map fun path => .substitution path raw

/-- Takes the next token. -/
def step (limits : Limits) (o : Outline) : Token → Except Refusal Outline
  | .text content => .ok (o.add (.literal content))
  | .expression inner raw line =>
    if limits.maxExpressionLength < Text.byteLength inner then .error .tooLong
    else (locate line (substitution inner raw)).map o.add
  | .directive body line =>
    -- the keyword counts as well
    if limits.maxExpressionLength < Text.byteLength body then .error .tooLong
    else
      let (keyword, rest) := Text.cutAtBlank body
      directive limits line o keyword (Text.trim rest)

/-- The program of an outline without open blocks. -/
def finish (o : Outline) : Except Refusal Program :=
  match o.frames with
  | [] => .ok o.nodes.reverse
  | frame :: _ => .error (.defect frame.line (.unclosedBlock frame.opening.keyword))

end Outline

namespace Program

/-- The program that a list of tokens makes. -/
def ofTokens (limits : Limits) (tokens : List Token) : Except Refusal Program := do
  let outline ← tokens.foldlM (Outline.step limits) .empty
  outline.finish

/-- The program of a template. -/
def ofSource (limits : Limits) (t : Text) : Except Refusal Program := do
  let tokens ← Token.ofSource t
  ofTokens limits tokens

end Program

end Stencil.Template
