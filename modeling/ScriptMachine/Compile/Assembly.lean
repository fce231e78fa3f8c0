import ScriptMachine.Code.Coercion
import ScriptMachine.Compile.Draft
/-! A method while its code is emitted. Every step emits its own instructions, and
the emitter stamps each with the line it was last told. -/
namespace ScriptMachine

structure Assembly where
  draft : Draft := {}
  emitter : Emitter := {}
  deriving DecidableEq, Repr

abbrev AssemblyM := EStateM CompileError Assembly

namespace AssemblyM

def drafting {α : Type} (step : CompileM α) : AssemblyM α := fun a =>
  match step.run a.draft with
  | .ok v draft => .ok v { a with draft := draft }
  | .error e draft => .error e { a with draft := draft }

def setLine (line : Nat) : AssemblyM Unit :=
  modify fun a => { a with emitter := a.emitter.setLine line }

def emit (i : Instruction) : AssemblyM Unit :=
  modify fun a => { a with emitter := a.emitter.emit i }

def emitAll (run : List Instruction) : AssemblyM Unit :=
  modify fun a => { a with emitter := a.emitter.emitAll run }

def coerce (top wanted : StaticType) (span : Span) : AssemblyM Unit :=
  match Coercion.find? top wanted with
  | some coercion => emitAll coercion.code
  | none => throw (.unresolvedCoercion top wanted span)

def converted (wanted : StaticType) (span : Span) (value : AssemblyM StaticType) :
    AssemblyM Unit := do
  let top ← value
  coerce top wanted span

/-- The name is bound before the value is compiled. -/
def assignLocal (options : CompileOptions) (form : AssignForm) (name : String)
    (span valueSpan : Span) (value : AssemblyM StaticType) : AssemblyM StaticType := do
  let binding ← drafting (CompileM.bindOrReuse name options.implicitType span)
  converted binding.entry.type valueSpan value
  match form with
  | .statement =>
    emit (.storeLocal binding.slot)
    pure .void
  | .expression =>
    emit .dup
    emit (.storeLocal binding.slot)
    pure binding.entry.type

def assignStored (keySpan valueSpan : Span) (key value : AssemblyM StaticType) :
    AssemblyM StaticType := do
  emit .loadStore
  converted .string keySpan key
  converted .object valueSpan value
  emit (.call .storeSet)
  pure .object

/-- The value of an assignment to a property that cannot be written is not compiled. -/
def assignProperty (lookup : Lookup) (name : String) (span valueSpan : Span)
    (value : AssemblyM StaticType) : AssemblyM StaticType := do
  match ← drafting (CompileM.ask fun query => lookup.resolveSetter query name) with
  | none =>
    emit .pushNull
    pure .object
  | some p =>
    converted .object valueSpan value
    let index ← drafting (CompileM.recordAccessor p span)
    emit .dup
    emit (.callSetter index)
    pure .object

def readProperty (lookup : Lookup) (name : String) (span : Span) : AssemblyM StaticType := do
  match ← drafting (CompileM.ask fun query => lookup.resolveGetter query name) with
  | none =>
    emit .pushNull
    pure .object
  | some p =>
    let index ← drafting (CompileM.recordAccessor p span)
    emit (.callGetter index)
    pure .object

def discard (type : StaticType) : AssemblyM Unit :=
  if type.isVoid then pure () else emit .pop

end AssemblyM
end ScriptMachine
