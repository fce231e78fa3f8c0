import ScriptMachine.Script
/-! Why a method does not compile. -/
namespace ScriptMachine

inductive Countable where
  | arrayInitializers
  | propertyAccessors
  deriving DecidableEq, Repr

def Countable.name : Countable → String
  | arrayInitializers => "array initializers"
  | propertyAccessors => "property accessors"

def Countable.node : Countable → NodeKind
  | arrayInitializers => .arrayCreate
  | propertyAccessors => .propertyReference

inductive CompileError where
  | duplicateDeclaration (name : String) (first span : Span)
  | undefinedVariable (name : String) (span : Span)
  | unassignableTarget (target : NodeKind) (span : Span)
  | unknownType (name : String) (span : Span)
  | limitExceeded (what : Countable) (limit : Nat) (span : Span)
  /-- No coercion leads from the type at hand to the type wanted, a fault of the compiler. -/
  | unresolvedCoercion (source target : StaticType) (span : Span)
  deriving DecidableEq, Repr

namespace CompileError

def span : CompileError → Span
  | duplicateDeclaration _ _ span => span
  | undefinedVariable _ span => span
  | unassignableTarget _ span => span
  | unknownType _ span => span
  | limitExceeded _ _ span => span
  | unresolvedCoercion _ _ span => span

def node? : CompileError → Option NodeKind
  | duplicateDeclaration .. => some .variableDeclaration
  | undefinedVariable .. => some .variableReference
  | unassignableTarget target _ => some target
  | unknownType .. => some .arrayCreate
  | limitExceeded what _ _ => some what.node
  | unresolvedCoercion .. => none

def isInternal : CompileError → Bool
  | unresolvedCoercion .. => true
  | _ => false

def message : CompileError → String
  | duplicateDeclaration name first span =>
    "at " ++ span.text ++ ": attempt to redefine local variable '" ++ name
      ++ "' (first declared at " ++ first.text ++ ")"
  | undefinedVariable name span =>
    "at " ++ span.text ++ ": undefined variable '" ++ name ++ "'"
  | unassignableTarget target span =>
    "at " ++ span.text ++ ": left hand side (" ++ target.name ++ ") is unassignable"
  | unknownType name span =>
    "at " ++ span.text ++ ": unknown element type '" ++ name ++ "'"
  | limitExceeded what limit span =>
    "at " ++ span.text ++ ": too many " ++ what.name ++ " (limit " ++ toString limit ++ ")"
  | unresolvedCoercion source target span =>
    "internal error at " ++ span.text ++ ": cannot coerce '" ++ source.name
      ++ "' to '" ++ target.name ++ "'"

end CompileError
end ScriptMachine
