import ScriptMachine.Code.Constant
/-! Instructions of the stack machine: an opcode and at most one operand. Any
operand may stand with any opcode; the machine refuses those it cannot use. -/
namespace ScriptMachine

inductive Scalar where
  | string
  | decimal
  | long
  | int
  | bool
  deriving DecidableEq, Repr

def Scalar.type : Scalar → StaticType
  | string => .string
  | decimal => .decimal
  | long => .long
  | int => .int
  | bool => .bool

def StaticType.scalar? : StaticType → Option Scalar
  | string => some .string
  | decimal => some .decimal
  | long => some .long
  | int => some .int
  | bool => some .bool
  | _ => none

inductive Intrinsic where
  | force (target : Scalar)
  | storeGet
  | storeSet
  deriving DecidableEq, Repr

namespace Intrinsic

def resultType : Intrinsic → StaticType
  | force target => target.type
  | storeGet | storeSet => .object

def name : Intrinsic → String
  | force .string => "force_string"
  | force .decimal => "force_decimal"
  | force .long => "force_long"
  | force .int => "force_int"
  | force .bool => "force_bool"
  | storeGet => "store_get"
  | storeSet => "store_set"

def all : List Intrinsic :=
  [force .string,force .decimal,force .long,force .int,force .bool,storeGet,storeSet]

def ofName? (name : String) : Option Intrinsic :=
  all.find? (·.name == name)

end Intrinsic

inductive OpCode where
  | pushConst
  | pushNull
  | pop
  | dup
  | box
  | loadLocal
  | storeLocal
  | loadArgument
  | loadStore
  | callIntrinsic
  | callGetter
  | callSetter
  | newArray
  | storeElement
  deriving DecidableEq, Repr

namespace OpCode

def name : OpCode → String
  | pushConst => "PUSH_CONST"
  | pushNull => "PUSH_NULL"
  | pop => "POP"
  | dup => "DUP"
  | box => "BOX"
  | loadLocal => "LOAD_LOCAL"
  | storeLocal => "STORE_LOCAL"
  | loadArgument => "LOAD_ARGUMENT"
  | loadStore => "LOAD_STORE"
  | callIntrinsic => "CALL_INTRINSIC"
  | callGetter => "CALL_GETTER"
  | callSetter => "CALL_SETTER"
  | newArray => "NEW_ARRAY"
  | storeElement => "STORE_ELEMENT"

def all : List OpCode :=
  [pushConst,pushNull,pop,dup,box,loadLocal,storeLocal,loadArgument,loadStore,callIntrinsic,
    callGetter,callSetter,newArray,storeElement]

def ofName? (name : String) : Option OpCode :=
  all.find? (·.name == name)

end OpCode

inductive Operand where
  | constant (c : Constant)
  | slot (n : Nat)
  | argument (n : Nat)
  | type (t : StaticType)
  | intrinsic (i : Intrinsic)
  | accessor (n : Nat)
  deriving DecidableEq, Repr

def Operand.text : Operand → List Char
  | constant c => c.text
  | slot n => '$' :: Text.natText n
  | argument n => "arg".toList ++ Text.natText n
  | type t => t.name.toList
  | intrinsic i => i.name.toList
  | accessor n => '@' :: Text.natText n

structure Instruction where
  op : OpCode
  operand : Option Operand := none
  deriving DecidableEq, Repr

namespace Instruction

def pushConst (c : Constant) : Instruction := ⟨.pushConst,some (.constant c)⟩
def pushInt (n : Int32) : Instruction := pushConst (.int n)
def pushNull : Instruction := ⟨.pushNull,none⟩
def pop : Instruction := ⟨.pop,none⟩
def dup : Instruction := ⟨.dup,none⟩
def box (t : StaticType) : Instruction := ⟨.box,some (.type t)⟩
def loadLocal (slot : Nat) : Instruction := ⟨.loadLocal,some (.slot slot)⟩
def storeLocal (slot : Nat) : Instruction := ⟨.storeLocal,some (.slot slot)⟩
def loadArgument (index : Nat) : Instruction := ⟨.loadArgument,some (.argument index)⟩
def loadStore : Instruction := ⟨.loadStore,none⟩
def call (i : Intrinsic) : Instruction := ⟨.callIntrinsic,some (.intrinsic i)⟩
def callGetter (accessor : Nat) : Instruction := ⟨.callGetter,some (.accessor accessor)⟩
def callSetter (accessor : Nat) : Instruction := ⟨.callSetter,some (.accessor accessor)⟩
def newArray (element : StaticType) : Instruction := ⟨.newArray,some (.type element)⟩
def storeElement : Instruction := ⟨.storeElement,none⟩

def slot? (i : Instruction) : Option Nat :=
  match i.operand with
  | some (.slot n) => some n
  | _ => none

def intrinsic? (i : Instruction) : Option Intrinsic :=
  match i.operand with
  | some (.intrinsic routine) => some routine
  | _ => none

def text (i : Instruction) : List Char :=
  match i.operand with
  | some operand => i.op.name.toList ++ ' ' :: operand.text
  | none => i.op.name.toList

end Instruction
end ScriptMachine
