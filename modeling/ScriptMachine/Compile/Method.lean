import ScriptMachine.Compile.Assembly
/-! Compiling a method. Statements are compiled in order. The code of an
expression leaves one value on the stack, whose static type is known. A name
that is assigned before it is declared is bound there and then. -/
namespace ScriptMachine
namespace Expr
open AssemblyM

mutual
/-- Whichever argument is named, the value is the one array of all arguments; the
base of an indexed access is not compiled. -/
def assemble (setup : CompileSetup) : Expr → AssemblyM StaticType
  | constant c _ => do
    emit (.pushConst c)
    pure c.type
  | null _ => do
    emit .pushNull
    pure .object
  | localRef name span => do
    let binding ← drafting (CompileM.lookupLocal name span)
    emit (.loadLocal binding.slot)
    pure binding.entry.type
  | argument _ _ => do
    emit (.loadArgument 0)
    pure (.array .object)
  | indexed _ key _ => do
    emit .loadStore
    converted .string key.span (assemble setup key)
    emit (.call .storeGet)
    pure .object
  | property name span => readProperty setup.lookup name span
  | arrayOf name items span => do
    let element ← drafting (CompileM.elementType name items.length span)
    emit (.pushInt (Int32.ofNat items.length))
    emit (.newArray element)
    assembleItems setup element 0 items
    pure (.array element)
  | assign (localRef name span) value _ =>
    assignLocal setup.options .expression name span value.span (assemble setup value)
  | assign (indexed _ key _) value _ =>
    assignStored key.span value.span (assemble setup key) (assemble setup value)
  | assign (property name span) value _ =>
    assignProperty setup.lookup name span value.span (assemble setup value)
  | assign target _ _ => throw (.unassignableTarget target.kind target.span)

def assembleItems (setup : CompileSetup) (element : StaticType) : Nat → List Expr → AssemblyM Unit
  | _, [] => pure ()
  | index, item :: items => do
    emit .dup
    emit (.pushInt (Int32.ofNat index))
    converted element item.span (assemble setup item)
    emit .storeElement
    assembleItems setup element (index + 1) items
end

def assembleAssignment (setup : CompileSetup) (form : AssignForm) (target value : Expr) :
    AssemblyM StaticType :=
  match target with
  | localRef name span =>
    assignLocal setup.options form name span value.span (value.assemble setup)
  | indexed _ key _ => assignStored key.span value.span (key.assemble setup) (value.assemble setup)
  | property name span => assignProperty setup.lookup name span value.span (value.assemble setup)
  | _ => throw (.unassignableTarget target.kind target.span)

end Expr

def Stmt.assemble (setup : CompileSetup) (stmt : Stmt) : AssemblyM Unit := do
  AssemblyM.setLine stmt.span.line
  match stmt with
  | declare name init span =>
    let type ← init.assemble setup
    let binding ← AssemblyM.drafting (CompileM.declareLocal name type span)
    AssemblyM.emit (.storeLocal binding.slot)
  | assign target value _ =>
    let type ← Expr.assembleAssignment setup .statement target value
    AssemblyM.discard type
  | evaluate e _ =>
    let type ← e.assemble setup
    AssemblyM.discard type

def assembleBody (setup : CompileSetup) : List Stmt → AssemblyM Unit
  | [] => pure ()
  | stmt :: rest => do
    stmt.assemble setup
    assembleBody setup rest

/-- Compiles a method, the lookup's questions being numbered from `queries` on;
also gives the number of the next question. -/
def compileMethod (setup : CompileSetup) (method : Method) (queries : Nat) :
    Except CompileError CompiledMethod × Nat :=
  match (assembleBody setup method.body).run
      ⟨{ queries := queries },{ recordsLines := setup.options.recordsLines }⟩ with
  | .ok _ a => (.ok ⟨method.name,a.emitter.listing,a.draft.scope.locals,a.draft.accessors⟩,
      a.draft.queries)
  | .error e a => (.error e,a.draft.queries)

structure CompiledUnit where
  methods : List CompiledMethod := []
  errors : List CompileError := []
  deriving DecidableEq, Repr

def CompiledUnit.succeeded (u : CompiledUnit) : Bool :=
  u.errors.isEmpty

def CompiledUnit.method? (u : CompiledUnit) (name : String) : Option CompiledMethod :=
  u.methods.find? (·.name == name)

def compileUnit (setup : CompileSetup) : List Method → Nat → CompiledUnit × Nat
  | [], queries => ({},queries)
  | method :: rest, queries =>
    let (result,queries) := compileMethod setup method queries
    let (u,queries) := compileUnit setup rest queries
    match result with
    | .ok compiled => ({ u with methods := compiled :: u.methods },queries)
    | .error e => ({ u with errors := e :: u.errors },queries)

end ScriptMachine
