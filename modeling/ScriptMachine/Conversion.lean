import ScriptMachine.Number
import ScriptMachine.Value.Basic
/-! Conversions. Every value converts to text, to each number type and to a
truth value; where no conversion makes sense the result is the target's zero.
All of them look through one box. -/
namespace ScriptMachine.Value

def number? (v : Value) : Option Number :=
  match v.unboxed with
  | int n => some (.integer n.toInt64)
  | long n => some (.integer n)
  | decimal d => some (.fraction d)
  | bool b => some (.integer (if b then 1 else 0))
  | string s => Number.read? s
  | _ => none

def toText (v : Value) : String :=
  match v.unboxed with
  | int n => String.ofList (Text.intText n.toInt)
  | long n => String.ofList (Text.intText n.toInt)
  | decimal d => String.ofList d.normalize.text
  | bool b => if b then "1" else "0"
  | string s => s
  | null | array _ | store | boxed _ => ""

def toDecimal (v : Value) : Decimal :=
  match v.number? with
  | some n => n.toDecimal
  | none => .zero

def toLong (v : Value) : Int64 :=
  match v.number? with
  | some n => n.toLong
  | none => 0

def toInt (v : Value) : Int32 :=
  v.toLong.toInt32

def toBool (v : Value) : Bool :=
  match v.unboxed with
  | null => false
  | bool b => b
  | int n => n != 0
  | long n => n != 0
  | decimal d => !d.isZero
  | string s =>
    if s = "" then false
    else
      match Number.read? s with
      | some n => !n.isZero
      | none => true
  | array _ | store | boxed _ => true

end ScriptMachine.Value
