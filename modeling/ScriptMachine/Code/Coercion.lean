import ScriptMachine.Code.Instruction
/-! Coercions: the code that turns the type on top of the stack into the type
that its user wants. -/
namespace ScriptMachine

inductive CoercionKind where
  | identity
  -- box the value type on top, if it is one, and convert the object
  | force (boxed : Option StaticType) (target : Scalar)
  | box (source : StaticType)
  -- any array may serve as an array of objects
  | arrayPassThrough
  deriving DecidableEq, Repr

structure Coercion where
  kind : CoercionKind
  target : StaticType
  deriving DecidableEq, Repr

namespace Coercion

def isIdentity (c : Coercion) : Bool :=
  c.kind = .identity

def code (c : Coercion) : List Instruction :=
  match c.kind with
  | .identity | .arrayPassThrough => []
  | .box source => [.box source]
  | .force (some source) target => [.box source,.call (.force target)]
  | .force none target => [.call (.force target)]

def kind? (top wanted : StaticType) : Option CoercionKind :=
  if top = wanted then some .identity
  else if top = .void then none
  else
    match wanted with
    | .object => some (if top.isValueType then .box top else .identity)
    | .array .object => if top.isArray then some .arrayPassThrough else none
    | _ => wanted.scalar?.map (.force (if top.isValueType then some top else none))

def find? (top wanted : StaticType) : Option Coercion :=
  (kind? top wanted).map fun kind => ⟨kind,wanted⟩

end Coercion
end ScriptMachine
