import ScriptMachine.Environment
import ScriptMachine.Value.Heap
/-! Native routines. The host of a script answers property reads and writes by
routines of its own. A getter may look at everything, a setter may change the
environment, and both have their hands on the arrays, a setter also when it fails.
What a routine leaves alone is for its host to promise. -/
namespace ScriptMachine

inductive NativeError where
  | invalidValue (property message : String)
  | other (text : String)
  deriving DecidableEq, Repr

def NativeError.message : NativeError → String
  | invalidValue property message => "invalid value for '" ++ property ++ "': " ++ message
  | other text => text

structure Surroundings where
  environment : Environment
  heap : Heap
  deriving DecidableEq, Repr

structure Reading where
  value : Value
  heap : Heap
  deriving DecidableEq, Repr

abbrev Getter := Environment → Heap → Reading

abbrev Setter := String → Value → EStateM NativeError Surroundings Unit

structure Host where
  isDirectory : String → Bool
  -- milliseconds since the environment was made
  ticks : Int64
  getter : Nat → Getter
  setter : Nat → Setter

end ScriptMachine
