import ScriptMachine.Proofs.Emission
import ScriptMachine.Machine.Run
/-! What a script means, said on its tree and without code or a stack. The
evaluator keeps the variables with their static types in the order in which they
are bound, and the same store, environment and arrays that a machine has. The
questions to the property lookup are numbered as they come up. -/
namespace ScriptMachine

def Value.convertTo (v : Value) : StaticType → Value
  | .string => v.convert .string
  | .decimal => v.convert .decimal
  | .long => v.convert .long
  | .int => v.convert .int
  | .bool => v.convert .bool
  | .object => v.asObject
  | .array _ => v
  | .void => v

structure Variable where
  name : String
  type : StaticType
  value : Value
  deriving DecidableEq, Repr

def findVariable? (table : List Variable) (name : String) : Option Variable :=
  table.find? (·.name = name)

def setVariable (name : String) (v : Value) : List Variable → List Variable
  | [] => []
  | x :: rest =>
    if x.name = name then { x with value := v } :: rest else x :: setVariable name v rest

structure EvalState where
  table : List Variable
  context : Context
  queries : Nat

inductive EvalError where
  | native (e : NativeError)
  | illFormed
  deriving DecidableEq, Repr

abbrev EvalM := EStateM EvalError EvalState

structure TypedValue where
  type : StaticType
  value : Value
  deriving DecidableEq, Repr

def TypedValue.convertTo (r : TypedValue) (wanted : StaticType) : Value :=
  if r.type = wanted then r.value else r.value.convertTo wanted

structure Evaluator where
  host : Host
  setup : CompileSetup
  arguments : ArrayId

namespace EvalM

def setHeap (heap : Heap) : EvalM Unit :=
  modify fun s => { s with context := { s.context with heap := heap } }

def readVariable (name : String) : EvalM TypedValue := do
  match findVariable? (← get).table name with
  | some x => pure ⟨x.type,x.value⟩
  | none => throw .illFormed

def bindVariable (name : String) (type : StaticType) : EvalM Unit :=
  modify fun s =>
    match findVariable? s.table name with
    | some _ => s
    | none => { s with table := s.table ++ [⟨name,type,type.initial⟩] }

def declareVariable (name : String) (r : TypedValue) : EvalM Unit := do
  let s ← get
  match findVariable? s.table name with
  | some _ => throw .illFormed
  | none => set { s with table := s.table ++ [Variable.mk name r.type r.value] }

def assignVariable (name : String) (r : TypedValue) : EvalM TypedValue := do
  let s ← get
  match findVariable? s.table name with
  | some x =>
    set { s with table := setVariable name (r.convertTo x.type) s.table }
    pure ⟨x.type,r.convertTo x.type⟩
  | none => throw .illFormed

def readKey (key : Value) : EvalM TypedValue := do
  pure ⟨.object,(← get).context.store.get key.toText⟩

def assignKey (key v : Value) : EvalM TypedValue := do
  modify fun s =>
    { s with context := { s.context with store := s.context.store.set key.toText v } }
  pure ⟨.object,v⟩

def ask (question : Nat → Option Property) : EvalM (Option Property) := do
  let s ← get
  set { s with queries := s.queries + 1 }
  pure (question s.queries)

def callGetter (host : Host) (p : Property) : EvalM TypedValue := do
  match p.getter with
  | none => pure ⟨.object,.null⟩
  | some getter =>
    let s ← get
    let answer := getter.read host s.context.environment s.context.heap
    setHeap answer.heap
    pure ⟨.object,answer.value.asObject⟩

theorem callGetterRun (host : Host) (p : Property) (s : EvalState) :
    (callGetter host p).run s = match p.read host s.context.environment s.context.heap with
      | none => .ok ⟨.object,.null⟩ s
      | some reading => .ok ⟨.object,reading.value⟩
          { s with context := { s.context with heap := reading.heap } } := by
  unfold callGetter Property.read
  cases p.getter <;> rfl

def readProperty (ev : Evaluator) (name : String) : EvalM TypedValue := do
  match ← ask fun query => ev.setup.lookup.resolveGetter query name with
  | none => pure ⟨.object,.null⟩
  | some p => callGetter ev.host p

/-- What the setter has changed stays changed, also where it refuses the value. -/
def callSetter (host : Host) (p : Property) (v : Value) : EvalM TypedValue := do
  match p.setter with
  | none => pure ⟨.object,v⟩
  | some setter =>
    let s ← get
    match (setter.write host v).run ⟨s.context.environment,s.context.heap⟩ with
    | .ok _ ⟨environment,heap⟩ =>
      set { s with context := { s.context with environment := environment, heap := heap } }
      pure ⟨.object,v⟩
    | .error e ⟨environment,heap⟩ =>
      set { s with context := { s.context with environment := environment, heap := heap } }
      throw (.native e)

theorem callSetterRun (host : Host) (p : Property) (v : Value) (s : EvalState) :
    (callSetter host p v).run s =
      match (p.write host v).run ⟨s.context.environment,s.context.heap⟩ with
      | .ok _ after => .ok ⟨.object,v⟩ { s with context := s.context.withSurroundings after }
      | .error e after =>
        .error (.native e) { s with context := s.context.withSurroundings after } := by
  unfold callSetter Property.write
  cases p.setter with
  | none => rfl
  | some setter =>
    simp only [EStateM.run_bind,EStateM.run_get]
    cases (setter.write host v).run ⟨s.context.environment,s.context.heap⟩ <;> rfl

def assignProperty (ev : Evaluator) (name : String) (value : EvalM TypedValue) :
    EvalM TypedValue := do
  match ← ask fun query => ev.setup.lookup.resolveSetter query name with
  -- the value is not evaluated where it cannot be written
  | none => pure ⟨.object,.null⟩
  | some p =>
    let r ← value
    callSetter ev.host p (r.convertTo .object)

def elementType (name : String) : EvalM StaticType :=
  match StaticType.ofName? name with
  | none => throw .illFormed
  | some element => pure element

def allocate (element : StaticType) (count : Nat) : EvalM ArrayId := do
  let s ← get
  let (id,heap) := s.context.heap.alloc ⟨element,Array.replicate count element.initial⟩
  setHeap heap
  pure id

def storeItem (id : ArrayId) (index : Nat) (v : Value) : EvalM Unit := do
  setHeap ((← get).context.heap.setItem id index v)

end EvalM

namespace Expr
open EvalM

mutual
def eval (ev : Evaluator) : Expr → EvalM TypedValue
  | constant c _ => pure ⟨c.type,c.value⟩
  | null _ => pure ⟨.object,.null⟩
  | localRef name _ => readVariable name
  | argument _ _ => pure ⟨.array .object,.array ev.arguments⟩
  | indexed _ key _ => do
    let k ← eval ev key
    readKey (k.convertTo .string)
  | property name _ => readProperty ev name
  | arrayOf name items _ => do
    let element ← elementType name
    let id ← allocate element items.length
    evalItems ev id element 0 items
    pure ⟨.array element,.array id⟩
  | assign (localRef name _) value _ => do
    bindVariable name ev.setup.options.implicitType
    let r ← eval ev value
    assignVariable name r
  | assign (indexed _ key _) value _ => do
    let k ← eval ev key
    let r ← eval ev value
    assignKey (k.convertTo .string) (r.convertTo .object)
  | assign (property name _) value _ => assignProperty ev name (eval ev value)
  | assign _ _ _ => throw .illFormed

def evalItems (ev : Evaluator) (id : ArrayId) (element : StaticType) :
    Nat → List Expr → EvalM Unit
  | _, [] => pure ()
  | index, item :: items => do
    let r ← eval ev item
    storeItem id index (r.convertTo element)
    evalItems ev id element (index + 1) items
end

theorem evalIndexed (ev : Evaluator) (base key : Expr) (span : Span) :
    (indexed base key span).eval ev = (do
      let k ← key.eval ev
      readKey (k.convertTo .string)) := by
  rw [eval]

end Expr

def Stmt.eval (ev : Evaluator) : Stmt → EvalM Unit
  | declare name init _ => do
    let r ← init.eval ev
    EvalM.declareVariable name r
  | assign target value span => do
    let _ ← (Expr.assign target value span).eval ev
  | evaluate e _ => do
    let _ ← e.eval ev

def evalBody (ev : Evaluator) : List Stmt → EvalM Unit
  | [] => pure ()
  | stmt :: rest => do
    stmt.eval ev
    evalBody ev rest

def Method.evaluate (method : Method) (host : Host) (setup : CompileSetup) (queries : Nat)
    (arguments : List Value) (context : Context) : EStateM.Result EvalError EvalState Unit :=
  -- the arguments become one new array of objects
  let (id,heap) := context.heap.alloc ⟨.object,(arguments.map Value.asObject).toArray⟩
  (evalBody ⟨host,setup,id⟩ method.body).run ⟨[],{ context with heap := heap },queries⟩

end ScriptMachine
