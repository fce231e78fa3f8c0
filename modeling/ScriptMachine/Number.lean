import ScriptMachine.Decimal.Reading
import ScriptMachine.Text.Blank
/-! Numbers in script text. Blanks around the number do not count. It is a
hexadecimal or decimal integer of 64 bits, or else a decimal, plain or
scientific. -/
namespace ScriptMachine

inductive Number where
  | integer (n : Int64)
  | fraction (d : Decimal)
  deriving DecidableEq, Repr

namespace Number
open Text (readNat? splitSign)

def toDecimal : Number → Decimal
  | integer n => .ofInt64 n
  | fraction d => d

def clamp (z : Int) : Int64 :=
  if z < Int64.minValue.toInt then Int64.minValue
  else if Int64.maxValue.toInt < z then Int64.maxValue
  else Int64.ofInt z

def toLong : Number → Int64
  | integer n => n
  | fraction d => clamp d.integerPart

def isZero : Number → Bool
  | integer n => n == 0
  | fraction d => d.isZero

def readLong? (cs : List Char) : Option Int64 := do
  let (negative,digits) := splitSign cs
  let n ← readNat? 10 digits
  let z : Int := if negative then -(n : Int) else n
  if Int64.minValue.toInt ≤ z ∧ z ≤ Int64.maxValue.toInt then some (Int64.ofInt z) else none

/-- The digits after the mark of a hexadecimal number. Without its sign the
number has to be a 64-bit integer. -/
def readHex? (negative : Bool) (digits : List Char) : Option Int64 := do
  let n ← readNat? 16 digits
  if n < 0x8000000000000000 then some (Int64.ofInt (if negative then -(n : Int) else n)) else none

def readTrimmed? (cs : List Char) : Option Number :=
  match splitSign cs with
  | (negative,'0' :: 'x' :: digits) => (readHex? negative digits).map integer
  | (negative,'0' :: 'X' :: digits) => (readHex? negative digits).map integer
  | _ =>
    match readLong? cs with
    | some n => some (integer n)
    | none => (Decimal.read? cs).map fraction

def read? (text : String) : Option Number :=
  readTrimmed? (Text.trim text.toList)

end Number
end ScriptMachine
