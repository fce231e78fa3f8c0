import ScriptMachine.Compile.Method
/-! The code of a method as lists of instructions, put together piece by piece and
without an emitter. Facts about code are proved of these lists. -/
namespace ScriptMachine

/-- Code that leaves a value of the given type. Code of type void leaves none. -/
structure Piece where
  code : List Instruction
  type : StaticType
  deriving DecidableEq, Repr

def Piece.discarded (piece : Piece) : List Instruction :=
  if piece.type.isVoid then piece.code else piece.code ++ [.pop]

namespace CompileM

def coerce (top wanted : StaticType) (span : Span) : CompileM (List Instruction) :=
  match Coercion.find? top wanted with
  | some coercion => pure coercion.code
  | none => throw (.unresolvedCoercion top wanted span)

def converted (wanted : StaticType) (span : Span) (compiled : CompileM Piece) :
    CompileM (List Instruction) := do
  let piece ← compiled
  let conversion ← coerce piece.type wanted span
  pure (piece.code ++ conversion)

def assignLocal (options : CompileOptions) (form : AssignForm) (name : String)
    (span valueSpan : Span) (value : CompileM Piece) : CompileM Piece := do
  let binding ← bindOrReuse name options.implicitType span
  let code ← converted binding.entry.type valueSpan value
  match form with
  | .statement => pure ⟨code ++ [.storeLocal binding.slot],.void⟩
  | .expression => pure ⟨code ++ [.dup,.storeLocal binding.slot],binding.entry.type⟩

def assignStored (keySpan valueSpan : Span) (key value : CompileM Piece) : CompileM Piece := do
  let keyCode ← converted .string keySpan key
  let valueCode ← converted .object valueSpan value
  pure ⟨.loadStore :: keyCode ++ valueCode ++ [.call .storeSet],.object⟩

def assignProperty (lookup : Lookup) (name : String) (span valueSpan : Span)
    (value : CompileM Piece) : CompileM Piece := do
  match ← ask fun query => lookup.resolveSetter query name with
  | none => pure ⟨[.pushNull],.object⟩
  | some p =>
    let code ← converted .object valueSpan value
    let index ← recordAccessor p span
    pure ⟨code ++ [.dup,.callSetter index],.object⟩

def readProperty (lookup : Lookup) (name : String) (span : Span) : CompileM Piece := do
  match ← ask fun query => lookup.resolveGetter query name with
  | none => pure ⟨[.pushNull],.object⟩
  | some p =>
    let index ← recordAccessor p span
    pure ⟨[.callGetter index],.object⟩

end CompileM

namespace Expr
open CompileM

mutual
def compile (setup : CompileSetup) : Expr → CompileM Piece
  | constant c _ => pure ⟨[.pushConst c],c.type⟩
  | null _ => pure ⟨[.pushNull],.object⟩
  | localRef name span => do
    let binding ← lookupLocal name span
    pure ⟨[.loadLocal binding.slot],binding.entry.type⟩
  | argument _ _ => pure ⟨[.loadArgument 0],.array .object⟩
  | indexed _ key _ => do
    let keyCode ← converted .string key.span (compile setup key)
    pure ⟨.loadStore :: keyCode ++ [.call .storeGet],.object⟩
  | property name span => readProperty setup.lookup name span
  | arrayOf name items span => do
    let element ← elementType name items.length span
    let filled ← compileItems setup element 0 items
    pure ⟨.pushInt (Int32.ofNat items.length) :: .newArray element :: filled,.array element⟩
  | assign (localRef name span) value _ =>
    assignLocal setup.options .expression name span value.span (compile setup value)
  | assign (indexed _ key _) value _ =>
    assignStored key.span value.span (compile setup key) (compile setup value)
  | assign (property name span) value _ =>
    assignProperty setup.lookup name span value.span (compile setup value)
  | assign target _ _ => throw (.unassignableTarget target.kind target.span)

def compileItems (setup : CompileSetup) (element : StaticType) :
    Nat → List Expr → CompileM (List Instruction)
  | _, [] => pure []
  | index, item :: items => do
    let code ← converted element item.span (compile setup item)
    let rest ← compileItems setup element (index + 1) items
    pure (.dup :: .pushInt (Int32.ofNat index) :: code ++ .storeElement :: rest)
end

def compileAssignment (setup : CompileSetup) (form : AssignForm) (target value : Expr) :
    CompileM Piece :=
  match target with
  | localRef name span =>
    assignLocal setup.options form name span value.span (value.compile setup)
  | indexed _ key _ =>
    assignStored key.span value.span (key.compile setup) (value.compile setup)
  | property name span => assignProperty setup.lookup name span value.span (value.compile setup)
  | _ => throw (.unassignableTarget target.kind target.span)

theorem compileAssign (setup : CompileSetup) (target value : Expr) (span : Span) :
    (assign target value span).compile setup =
      compileAssignment setup .expression target value := by
  cases target <;> simp [compile,compileAssignment]

end Expr

def Stmt.compile (setup : CompileSetup) : Stmt → CompileM (List Instruction)
  | declare name init span => do
    let piece ← init.compile setup
    let binding ← CompileM.declareLocal name piece.type span
    pure (piece.code ++ [.storeLocal binding.slot])
  | assign target value _ => do
    let piece ← Expr.compileAssignment setup .statement target value
    pure piece.discarded
  | evaluate e _ => do
    let piece ← e.compile setup
    pure piece.discarded

def compileBody (setup : CompileSetup) : List Stmt → Emitter → CompileM Emitter
  | [], emitter => pure emitter
  | stmt :: rest, emitter => do
    let code ← stmt.compile setup
    compileBody setup rest ((emitter.setLine stmt.span.line).emitAll code)

end ScriptMachine
