import ScriptMachine.Code.Constant
import ScriptMachine.Span
/-! Scripts as trees: expressions, statements and methods. An indexed access
always goes to the store; its base is written down but never looked at. -/
namespace ScriptMachine

inductive NodeKind where
  | literal
  | variableReference
  | argumentReference
  | indexedAccess
  | propertyReference
  | arrayCreate
  | assign
  | variableDeclaration
  | assignStatement
  | expressionStatement
  deriving DecidableEq, Repr

def NodeKind.name : NodeKind → String
  | literal => "Literal"
  | variableReference => "VariableReference"
  | argumentReference => "ArgumentReference"
  | indexedAccess => "IndexedAccess"
  | propertyReference => "PropertyReference"
  | arrayCreate => "ArrayCreate"
  | assign => "Assign"
  | variableDeclaration => "VariableDeclaration"
  | assignStatement => "AssignStatement"
  | expressionStatement => "ExpressionStatement"

inductive Expr where
  | constant (c : Constant) (span : Span)
  | null (span : Span)
  | localRef (name : String) (span : Span)
  | argument (index : Nat) (span : Span)
  | indexed (base key : Expr) (span : Span)
  | property (name : String) (span : Span)
  | arrayOf (element : String) (items : List Expr) (span : Span)
  | assign (target value : Expr) (span : Span)
  deriving Repr

structure Node where
  kind : NodeKind
  span : Span
  deriving DecidableEq, Repr

namespace Expr

def span : Expr → Span
  | constant _ s | null s | localRef _ s | argument _ s | indexed _ _ s | property _ s
  | arrayOf _ _ s | assign _ _ s => s

def kind : Expr → NodeKind
  | constant .. | null .. => .literal
  | localRef .. => .variableReference
  | argument .. => .argumentReference
  | indexed .. => .indexedAccess
  | property .. => .propertyReference
  | arrayOf .. => .arrayCreate
  | assign .. => .assign

mutual
def nodes : Expr → List Node
  | indexed base key span => ⟨.indexedAccess,span⟩ :: (nodes base ++ nodes key)
  | arrayOf _ items span => ⟨.arrayCreate,span⟩ :: nodesAll items
  | assign target value span => ⟨.assign,span⟩ :: (nodes target ++ nodes value)
  | constant _ span => [⟨.literal,span⟩]
  | null span => [⟨.literal,span⟩]
  | localRef _ span => [⟨.variableReference,span⟩]
  | argument _ span => [⟨.argumentReference,span⟩]
  | property _ span => [⟨.propertyReference,span⟩]

def nodesAll : List Expr → List Node
  | [] => []
  | e :: es => nodes e ++ nodesAll es
end

end Expr

inductive Stmt where
  | declare (name : String) (init : Expr) (span : Span)
  | assign (target value : Expr) (span : Span)
  | evaluate (e : Expr) (span : Span)
  deriving Repr

namespace Stmt

def span : Stmt → Span
  | declare _ _ s | assign _ _ s | evaluate _ s => s

def nodes : Stmt → List Node
  | declare _ init span => ⟨.variableDeclaration,span⟩ :: init.nodes
  | assign target value span => ⟨.assignStatement,span⟩ :: (target.nodes ++ value.nodes)
  | evaluate e span => ⟨.expressionStatement,span⟩ :: e.nodes

end Stmt

structure Method where
  name : String
  body : List Stmt
  span : Span := .start
  deriving Repr

def Method.nodes (m : Method) : List Node :=
  m.body.flatMap Stmt.nodes

end ScriptMachine
