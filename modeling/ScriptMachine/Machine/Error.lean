import ScriptMachine.Property.Native
/-! Why a run stops. Each error but a native one tells the offset of the
instruction at which it arose. -/
namespace ScriptMachine

inductive RuntimeError where
  | stackUnderflow (offset : Nat)
  | stackOverflow (offset limit : Nat)
  | typeMismatch (expected : String) (actual : Shape) (offset : Nat)
  | invalidSlot (slot offset : Nat)
  | missingOperand (offset : Nat)
  | indexOutOfBounds (index : Int) (length offset : Nat)
  | unknownAccessor (index offset : Nat)
  | native (e : NativeError)
  deriving DecidableEq, Repr

def RuntimeError.message : RuntimeError → String
  | stackUnderflow offset => s!"stack underflow at instruction {offset}"
  | stackOverflow offset limit => s!"stack overflow at instruction {offset} (limit {limit})"
  | typeMismatch expected actual offset =>
    s!"type mismatch at instruction {offset}: expected " ++ expected ++ ", found " ++ actual.name
  | invalidSlot slot offset => s!"invalid local slot {slot} at instruction {offset}"
  | missingOperand offset => s!"instruction {offset} is missing its operand"
  | indexOutOfBounds index length offset =>
    s!"index {index} out of bounds for array of length {length} at instruction {offset}"
  | unknownAccessor index offset =>
    s!"no accessor #{index} in the method's table at instruction {offset}"
  | native e => e.message

end ScriptMachine
