import ScriptMachine.Machine.Step
/-! Running a method. Instructions are executed in order until the last or the
first that fails; there are no jumps. -/
namespace ScriptMachine

def runFrom (setting : Setting) : Nat → List Instruction → MachineM Unit
  | _, [] => pure ()
  | offset, i :: rest => do
    step setting offset i
    runFrom setting (offset + 1) rest

theorem runFromAppend (setting : Setting) (offset : Nat) (first second : List Instruction) :
    runFrom setting offset (first ++ second) = (do
      runFrom setting offset first
      runFrom setting (offset + first.length) second) := by
  induction first generalizing offset with
  | nil => simp [runFrom]
  | cons i rest ih => simp [runFrom,ih,Nat.add_comm,Nat.add_left_comm]

structure Frame where
  names : List String
  locals : List Value
  stack : List Value
  deriving DecidableEq, Repr

namespace Frame

def get? (frame : Frame) (name : String) : Option Value :=
  frame.locals[frame.names.findIdx (· == name)]?

def isBalanced (frame : Frame) : Bool :=
  frame.stack.isEmpty

end Frame

def defaultLimit : Nat := 1024

def CompiledMethod.initialLocals (method : CompiledMethod) : List Value :=
  method.locals.map fun entry => entry.type.initial

/-- Runs a method. The arguments become one new array of objects. -/
def execute (host : Host) (limit : Nat) (method : CompiledMethod) (arguments : List Value) :
    EStateM RuntimeError Context Frame := fun context =>
  let (id,heap) := context.heap.alloc ⟨.object,(arguments.map Value.asObject).toArray⟩
  let start : Machine := ⟨method.initialLocals,[],{ context with heap := heap }⟩
  match (runFrom ⟨host,method,id,limit⟩ 0 method.listing.instructions).run start with
  | .ok _ m => .ok ⟨method.locals.map (·.name),m.locals,m.stack⟩ m.context
  | .error e m => .error e m.context

end ScriptMachine
