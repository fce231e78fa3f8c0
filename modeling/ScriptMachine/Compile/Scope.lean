import ScriptMachine.Code.Method
import ScriptMachine.Compile.Error
/-! Scopes. A method has one flat scope: a name keeps the slot, the type and the
place of its first binding until the method ends. Slots are numbered from zero
in the order of binding. -/
namespace ScriptMachine

structure Scope where
  locals : List Local := []
  deriving DecidableEq, Repr

namespace Scope

def size (scope : Scope) : Nat :=
  scope.locals.length

def find? (scope : Scope) (name : String) : Option Binding :=
  findLocal? scope.locals name

def contains (scope : Scope) (name : String) : Bool :=
  (scope.find? name).isSome

def bind (scope : Scope) (name : String) (type : StaticType) (span : Span) : Binding × Scope :=
  (⟨scope.size,⟨name,type,span⟩⟩,⟨scope.locals ++ [⟨name,type,span⟩]⟩)

def declare (scope : Scope) (name : String) (type : StaticType) (span : Span) :
    Except CompileError (Binding × Scope) :=
  match scope.find? name with
  | some first => .error (.duplicateDeclaration name first.entry.span span)
  | none => .ok (scope.bind name type span)

def lookup (scope : Scope) (name : String) (span : Span) : Except CompileError Binding :=
  match scope.find? name with
  | some binding => .ok binding
  | none => .error (.undefinedVariable name span)

def bindOrReuse (scope : Scope) (name : String) (type : StaticType) (span : Span) :
    Binding × Scope :=
  match scope.find? name with
  | some binding => (binding,scope)
  | none => scope.bind name type span

@[simp] theorem sizeBind (scope : Scope) (name : String) (type : StaticType) (span : Span) :
    (scope.bind name type span).2.size = scope.size + 1 := by
  simp [bind,size]

@[simp] theorem slotBind (scope : Scope) (name : String) (type : StaticType) (span : Span) :
    (scope.bind name type span).2.locals[scope.size]? = some ⟨name,type,span⟩ := by
  simp [bind,size]

@[simp] theorem findBind (scope : Scope) (name other : String) (type : StaticType) (span : Span) :
    (scope.bind name type span).2.find? other =
      (scope.find? other).or
        (if name = other then some (scope.bind name type span).1 else none) := by
  simp [find?,bind,findLocal?,findLocalFromAppend,findLocalFrom,size]

end Scope
end ScriptMachine
