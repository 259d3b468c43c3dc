import Stencil.Text.Basic

/-!
# Defects of templates

What can be wrong with the text of a template, each with the words in which it is reported. A defect is found on a
line; two more reasons to refuse a template are limits, which no line is named for.
-/

namespace Stencil.Template

/-- The three kinds of blocks that stand out from the text of a template. -/
inductive BlockKind where
  | expression
  | note
  | comment
deriving DecidableEq, Repr

/-- A block kind as a message names it. -/
def BlockKind.label : BlockKind → Text
  | .expression => "expression"
  | .note => "template comment"
  | .comment => "comment or directive"

/-- Something that the grammar of templates does not allow. -/
inductive Defect where
  | unterminated (kind : BlockKind)
  | emptyExpression
  | invalidName (name : Text)
  | reservedName
  | malformedLoop
  | missingCondition
  | argumentsOfElse
  | misplacedElse
  | missingInclusionPath
  | endWithoutBlock (keyword : Text)
  | mismatchedEnd (keyword : Text) (openKeyword : Text) (openLine : Nat)
  | unclosedBlock (keyword : Text)
  | unknownDirective
  | unterminatedString
  | unsupportedCondition
  | operatorWithoutOperand
deriving DecidableEq, Repr

/-- A defect in words. -/
def Defect.message : Defect → Text
  | .unterminated kind => "unterminated " ++ kind.label
  | .emptyExpression => "empty expression"
  | .invalidName name => "invalid name `" ++ name ++ "`"
  | .reservedName => "reserved name"
  | .malformedLoop => "expected `FOR <name> IN <path>`"
  | .missingCondition => "IF requires a condition"
  | .argumentsOfElse => "ELSE takes no arguments"
  | .misplacedElse => "ELSE outside of an IF block"
  | .missingInclusionPath => "INCLUDE requires a path"
  | .endWithoutBlock keyword => "END " ++ keyword ++ " without an open block"
  | .mismatchedEnd keyword openKeyword openLine =>
    "END " ++ keyword ++ " closes " ++ openKeyword ++ " opened on line " ++ Text.ofNat openLine
  | .unclosedBlock keyword => "unclosed " ++ keyword ++ " block"
  | .unknownDirective => "unknown directive"
  | .unterminatedString => "unterminated string in condition"
  | .unsupportedCondition => "unsupported condition"
  | .operatorWithoutOperand => "operator without operand"

/-- Why a template is refused: a defect on a line, an expression or directive that is too long, or too many blocks
inside each other. -/
inductive Refusal where
  | defect (line : Nat) (defect : Defect)
  | tooLong
  | tooDeep
deriving DecidableEq, Repr

end Stencil.Template
