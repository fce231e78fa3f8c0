import ScriptMachine.Code.Method
import ScriptMachine.Machine.Routine
/-! One instruction of the machine. A step that fails leaves in the store, the
environment and the heap what it did before it failed. -/
namespace ScriptMachine

structure Context where
  store : Store := {}
  environment : Environment := {}
  heap : Heap := {}

instance : Inhabited Context := ⟨{}⟩

def Context.withSurroundings (context : Context) (s : Surroundings) : Context :=
  { context with environment := s.environment, heap := s.heap }

structure Setting where
  host : Host
  method : CompiledMethod
  -- the array that holds the arguments
  arguments : ArrayId
  limit : Nat

/-- The locals by slot, and the stack with its top in front. -/
structure Machine where
  locals : List Value
  stack : List Value := []
  context : Context

abbrev MachineM := EStateM RuntimeError Machine

namespace MachineM

def push (limit offset : Nat) (v : Value) : MachineM Unit := fun m =>
  if limit ≤ m.stack.length then .error (.stackOverflow offset limit) m
  else .ok () { m with stack := v :: m.stack }

def pop (offset : Nat) : MachineM Value := fun m =>
  match m.stack with
  | [] => .error (.stackUnderflow offset) m
  | v :: rest => .ok v { m with stack := rest }

def popIndex (offset : Nat) : MachineM Int := do
  match ← pop offset with
  | .int n => pure n.toInt
  | v => throw (.typeMismatch "int" v.shape offset)

def slotOf (i : Instruction) (offset : Nat) : MachineM Nat :=
  match i.operand with
  | some (.slot n) => pure n
  | _ => throw (.missingOperand offset)

def accessorOf (method : CompiledMethod) (i : Instruction) (offset : Nat) : MachineM Property :=
  match i.operand with
  | some (.accessor n) =>
    match method.accessors[n]? with
    | some p => pure p
    | none => throw (.unknownAccessor n offset)
  | _ => throw (.missingOperand offset)

def pushConst (limit offset : Nat) (i : Instruction) : MachineM Unit :=
  match i.operand with
  | some (.constant c) => push limit offset c.value
  | _ => throw (.missingOperand offset)

def dup (limit offset : Nat) : MachineM Unit := do
  match (← get).stack with
  | [] => throw (.stackUnderflow offset)
  | v :: _ => push limit offset v

def box (limit offset : Nat) : MachineM Unit := do
  let v ← pop offset
  if v.isRaw then push limit offset (.boxed v)
  else throw (.typeMismatch "value type" v.shape offset)

def loadLocal (limit offset : Nat) (i : Instruction) : MachineM Unit := do
  let slot ← slotOf i offset
  match (← get).locals[slot]? with
  | some v => push limit offset v
  | none => throw (.invalidSlot slot offset)

def storeLocal (method : CompiledMethod) (offset : Nat) (i : Instruction) : MachineM Unit := do
  let slot ← slotOf i offset
  let v ← pop offset
  match method.locals[slot]? with
  | none => throw (.invalidSlot slot offset)
  | some entry =>
    if v.fits entry.type then modify fun m => { m with locals := m.locals.set slot v }
    else throw (.typeMismatch entry.type.name v.shape offset)

def loadArgument (setting : Setting) (offset : Nat) (i : Instruction) : MachineM Unit :=
  match i.operand with
  | some (.argument _) => push setting.limit offset (.array setting.arguments)
  | _ => throw (.missingOperand offset)

def callIntrinsic (limit offset : Nat) : Intrinsic → MachineM Unit
  | .force target => do
    let v ← pop offset
    push limit offset (← MonadExcept.ofExcept (forceObject target v offset))
  | .storeGet => do
    let key ← pop offset
    let target ← pop offset
    let store := (← get).context.store
    push limit offset (← MonadExcept.ofExcept (store.fetch target key offset))
  | .storeSet => do
    let v ← pop offset
    let key ← pop offset
    let target ← pop offset
    let m ← get
    let store ← MonadExcept.ofExcept (m.context.store.assign target key v offset)
    set { m with context := { m.context with store := store } }
    push limit offset v

def callGetter (setting : Setting) (offset : Nat) (i : Instruction) : MachineM Unit := do
  let p ← accessorOf setting.method i offset
  let m ← get
  match p.read setting.host m.context.environment m.context.heap with
  | none => push setting.limit offset .null
  | some reading =>
    set { m with context := { m.context with heap := reading.heap } }
    push setting.limit offset reading.value

def callSetter (setting : Setting) (offset : Nat) (i : Instruction) : MachineM Unit := do
  let p ← accessorOf setting.method i offset
  let v ← pop offset
  let m ← get
  match (p.write setting.host v).run ⟨m.context.environment,m.context.heap⟩ with
  | .ok _ after => set { m with context := m.context.withSurroundings after }
  | .error e after =>
    set { m with context := m.context.withSurroundings after }
    throw (.native e)

def newArray (limit offset : Nat) (i : Instruction) : MachineM Unit :=
  match i.operand with
  | some (.type element) => do
    let count ← popIndex offset
    if count < 0 then throw (.indexOutOfBounds count 0 offset)
    let m ← get
    let (id,heap) := m.context.heap.alloc ⟨element,Array.replicate count.toNat element.initial⟩
    set { m with context := { m.context with heap := heap } }
    push limit offset (.array id)
  | _ => throw (.missingOperand offset)

/-- A reference that leads to no array counts as an array without elements. -/
def storeElement (offset : Nat) : MachineM Unit := do
  let v ← pop offset
  let index ← popIndex offset
  match ← pop offset with
  | .array id =>
    let m ← get
    let cell := (m.context.heap.cell? id).getD ⟨.object,#[]⟩
    if v.fits cell.element then
      if 0 ≤ index ∧ index < cell.items.size then
        set { m with context := { m.context with heap := m.context.heap.setItem id index.toNat v } }
      else throw (.indexOutOfBounds index cell.items.size offset)
    else throw (.typeMismatch cell.element.name v.shape offset)
  | target => throw (.typeMismatch "array" target.shape offset)

end MachineM

open MachineM in
def step (setting : Setting) (offset : Nat) (i : Instruction) : MachineM Unit :=
  match i.op with
  | .pushConst => pushConst setting.limit offset i
  | .pushNull => push setting.limit offset .null
  | .pop => do
    let _ ← pop offset
  | .dup => dup setting.limit offset
  | .box => box setting.limit offset
  | .loadLocal => loadLocal setting.limit offset i
  | .storeLocal => storeLocal setting.method offset i
  | .loadArgument => loadArgument setting offset i
  | .loadStore => push setting.limit offset .store
  | .callIntrinsic =>
    match i.operand with
    | some (.intrinsic routine) => callIntrinsic setting.limit offset routine
    | _ => throw (.missingOperand offset)
  | .callGetter => callGetter setting offset i
  | .callSetter => callSetter setting offset i
  | .newArray => newArray setting.limit offset i
  | .storeElement => storeElement offset

end ScriptMachine
