import ScriptMachine.Text.Quoted
import ScriptMachine.Value.Basic
/-! Constants: the literal values that a script can hold, null apart. -/
namespace ScriptMachine

inductive Constant where
  | int (n : Int32)
  | long (n : Int64)
  | decimal (d : Decimal)
  | string (s : String)
  | bool (b : Bool)
  deriving DecidableEq, Repr

namespace Constant

def type : Constant → StaticType
  | int _ => .int
  | long _ => .long
  | decimal _ => .decimal
  | string _ => .string
  | bool _ => .bool

def value : Constant → Value
  | int n => .int n
  | long n => .long n
  | decimal d => .decimal d
  | string s => .string s
  | bool b => .bool b

def text : Constant → List Char
  | int n => Text.intText n.toInt
  | long n => Text.intText n.toInt ++ ['L']
  | decimal d => d.text ++ ['M']
  | string s => Text.quotedText s.toList
  | bool b => if b then "true".toList else "false".toList

end Constant
end ScriptMachine
