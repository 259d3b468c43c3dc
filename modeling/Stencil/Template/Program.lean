import Stencil.Template.Condition

/-!
# Programs

A template that has been read is a program: a list of nodes of six closed kinds, none of which holds an expression
to be interpreted later. The counts and lists here follow the order of the document.
-/

namespace Stencil.Template

/-- A part of a program.

* `literal`: text that is copied;
* `substitution`: the value of a path, with the source it is written in;
* `loop`: a body for each item of a list;
* `conditional`: one of two bodies;
* `region`: a body that the caller switches on or off;
* `inclusion`: another file. -/
inductive Node where
  | literal (text : Text)
  | substitution (path : Path) (raw : Text)
  | loop (name : Text) (collection : Path) (body : List Node)
  | conditional (condition : Condition) (body : List Node) (otherwise : List Node)
  | region (name : Text) (body : List Node)
  | inclusion (path : Text)
deriving BEq, Repr

/-- A template body. -/
abbrev Program := List Node

namespace Program

/-- How many nodes a program has, those in the bodies of others counted too. -/
def nodeCount : Program → Nat
  | [] => 0
  | node :: rest => ofNode node + nodeCount rest
where
  /-- A node and the nodes in its bodies. -/
  ofNode : Node → Nat
    | .loop _ _ body => 1 + nodeCount body
    | .conditional _ body otherwise => 1 + (nodeCount body + nodeCount otherwise)
    | .region _ body => 1 + nodeCount body
    | .literal _ => 1
    | .substitution _ _ => 1
    | .inclusion _ => 1

/-- The paths of all inclusions. -/
def inclusions : Program → List Text
  | [] => []
  | node :: rest => ofNode node ++ inclusions rest
where
  /-- The inclusions that a node is or holds. -/
  ofNode : Node → List Text
    | .inclusion path => [path]
    | .loop _ _ body => inclusions body
    | .conditional _ body otherwise => inclusions body ++ inclusions otherwise
    | .region _ body => inclusions body
    | .literal _ => []
    | .substitution _ _ => []

/-- The operands of all conditions, those of a condition in front of those in its bodies. -/
def operands : Program → List Operand
  | [] => []
  | node :: rest => ofNode node ++ operands rest
where
  /-- The operands that a node asks about itself or in its bodies. -/
  ofNode : Node → List Operand
    | .loop _ _ body => operands body
    | .conditional condition body otherwise => condition.operands ++ (operands body ++ operands otherwise)
    | .region _ body => operands body
    | .literal _ => []
    | .substitution _ _ => []
    | .inclusion _ => []

end Program

end Stencil.Template
