import ScriptMachine.Compile.Scope
import ScriptMachine.Property.Lookup
/-! What is known of a method while it is compiled, and the steps that look something
up or bind it: locals, properties, element types. -/
namespace ScriptMachine

structure CompileOptions where
  -- the type of a local that is first bound by an assignment
  implicitType : StaticType := .int
  recordsLines : Bool := true
  deriving DecidableEq, Repr

structure CompileSetup where
  lookup : Lookup
  options : CompileOptions := {}

structure Draft where
  scope : Scope := {}
  accessors : List Property := []
  queries : Nat := 0
  deriving DecidableEq, Repr

abbrev CompileM := EStateM CompileError Draft

inductive AssignForm where
  | statement
  | expression
  deriving DecidableEq, Repr

namespace CompileM

def lookupLocal (name : String) (span : Span) : CompileM Binding := do
  MonadExcept.ofExcept ((← get).scope.lookup name span)

def declareLocal (name : String) (type : StaticType) (span : Span) : CompileM Binding := do
  let draft ← get
  let (binding,scope) ← MonadExcept.ofExcept (draft.scope.declare name type span)
  set { draft with scope := scope }
  pure binding

def bindOrReuse (name : String) (type : StaticType) (span : Span) : CompileM Binding := do
  let draft ← get
  let (binding,scope) := draft.scope.bindOrReuse name type span
  set { draft with scope := scope }
  pure binding

def ask (question : Nat → Option Property) : CompileM (Option Property) := do
  let draft ← get
  set { draft with queries := draft.queries + 1 }
  pure (question draft.queries)

def accessorLimit : Nat := 0xffffffff

def recordAccessor (p : Property) (span : Span) : CompileM Nat := do
  let draft ← get
  let index := draft.accessors.findIdx (·.sharesAccessors p)
  if index = draft.accessors.length then
    set { draft with accessors := draft.accessors ++ [p] }
  if accessorLimit < index then
    throw (.limitExceeded .propertyAccessors accessorLimit span)
  pure index

/-- Lengths and indices of arrays are 32-bit integers. -/
def initializerLimit : Nat := 0x7fffffff

def elementType (name : String) (count : Nat) (span : Span) : CompileM StaticType :=
  match StaticType.ofName? name with
  | none => throw (.unknownType name span)
  | some element =>
    if initializerLimit < count then
      throw (.limitExceeded .arrayInitializers initializerLimit span)
    else pure element

end CompileM
end ScriptMachine
