import ScriptMachine.Code.Instruction
import ScriptMachine.Conversion
import ScriptMachine.Machine.Error
import ScriptMachine.Store
/-! The machine's own routines. They work on objects: a value type that was not
boxed is refused. -/
namespace ScriptMachine

def Value.convert (v : Value) : Scalar → Value
  | .string => .string v.toText
  | .decimal => .decimal v.toDecimal
  | .long => .long v.toLong
  | .int => .int v.toInt
  | .bool => .bool v.toBool

def expectObject (v : Value) (offset : Nat) : Except RuntimeError Unit :=
  if v.isRaw then .error (.typeMismatch "object" v.shape offset) else .ok ()

def expectStore (v : Value) (offset : Nat) : Except RuntimeError Unit :=
  match v with
  | .store => .ok ()
  | _ => .error (.typeMismatch "store" v.shape offset)

def expectKey (v : Value) (offset : Nat) : Except RuntimeError String :=
  match v with
  | .string s => .ok s
  | _ => .error (.typeMismatch "string" v.shape offset)

def forceObject (target : Scalar) (v : Value) (offset : Nat) : Except RuntimeError Value := do
  expectObject v offset
  pure (v.convert target)

def Store.fetch (store : Store) (target key : Value) (offset : Nat) :
    Except RuntimeError Value := do
  expectStore target offset
  let name ← expectKey key offset
  pure (store.get name)

def Store.assign (store : Store) (target key v : Value) (offset : Nat) :
    Except RuntimeError Store := do
  expectStore target offset
  expectObject v offset
  let name ← expectKey key offset
  pure (store.set name v)

end ScriptMachine
