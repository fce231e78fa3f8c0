import ScriptMachine.Decimal.Basic
import ScriptMachine.StaticType
/-! Values of a running script. A value type (int, long, decimal, bool) is raw
or boxed; only a boxed one may stand where an object is wanted. Arrays are
shared: the value is the array's number in the heap. -/
namespace ScriptMachine

abbrev ArrayId := Nat

inductive Value where
  | null
  | int (n : Int32)
  | long (n : Int64)
  | decimal (d : Decimal)
  | bool (b : Bool)
  | string (s : String)
  | boxed (inner : Value)
  | array (id : ArrayId)
  | store
  deriving DecidableEq, Repr, Inhabited

inductive Shape where
  | null | int | long | decimal | bool | string | boxed | array | store
  deriving DecidableEq, Repr

def Shape.name : Shape → String
  | null => "null"
  | int => "int"
  | long => "long"
  | decimal => "decimal"
  | bool => "bool"
  | string => "string"
  | boxed => "boxed"
  | array => "array"
  | store => "store"

namespace Value

def shape : Value → Shape
  | null => .null
  | int _ => .int
  | long _ => .long
  | decimal _ => .decimal
  | bool _ => .bool
  | string _ => .string
  | boxed _ => .boxed
  | array _ => .array
  | store => .store

def isRaw : Value → Bool
  | int _ | long _ | decimal _ | bool _ => true
  | _ => false

def asObject (v : Value) : Value :=
  if v.isRaw then boxed v else v

def unboxed : Value → Value
  | boxed inner => inner
  | v => v

/-- Whether a value of this shape may stand in a place of the given type. Of an
array only its being one is asked, not its element type. -/
def fits : Value → StaticType → Bool
  | int _, .int => true
  | long _, .long => true
  | decimal _, .decimal => true
  | bool _, .bool => true
  | string _, .string => true
  | null, .string => true
  | v, .object => !v.isRaw
  | array _, .array _ => true
  | null, .array _ => true
  | _, _ => false

theorem asObjectFits (v : Value) : v.asObject.fits .object = true := by
  cases v <;> rfl

end Value

def StaticType.initial : StaticType → Value
  | int => .int 0
  | long => .long 0
  | decimal => .decimal .zero
  | bool => .bool false
  | _ => .null

theorem StaticType.initialFits {t : StaticType} (filled : t ≠ .void) :
    t.initial.fits t = true := by
  cases t with
  | void => exact absurd rfl filled
  | string | decimal | long | int | bool | object | array => rfl

end ScriptMachine
