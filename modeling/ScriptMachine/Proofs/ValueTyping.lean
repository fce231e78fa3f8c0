import ScriptMachine.Proofs.Evaluation
import ScriptMachine.Proofs.RunPoint
/-! Typing of values by static types. Two things can leave a value that is not
what its type says: a name bound with the type string holds null until it is
assigned, and a store filled from outside may hold a value type that is not
boxed. Where both are ruled out, typing is strict; what is true of the shape of a
value in any case is kept apart from that. -/
namespace ScriptMachine

namespace Value

def Inhabits (v : Value) (t : StaticType) : Prop :=
  v.fits t = true ∧ (t = .string → v ≠ .null)

theorem fitsRaw {v : Value} {t : StaticType} (fits : v.fits t = true) :
    v.isRaw = t.isValueType := by
  cases v <;> cases t <;> first | rfl | cases fits

theorem fitsSolid {v : Value} {t : StaticType} (fits : v.fits t = true) : t ≠ .void := by
  rintro rfl
  cases v <;> cases fits

theorem Inhabits.ofObject {v : Value} (object : v.isRaw = false) : v.Inhabits .object := by
  refine ⟨?_,fun impossible => by cases impossible⟩
  cases v <;> first | rfl | cases object

theorem Inhabits.text {v : Value} (typed : v.Inhabits .string) : v.shape = .string := by
  cases v with
  | string s => rfl
  | null => exact absurd rfl (typed.2 rfl)
  | int | long | decimal | bool | boxed | array | store => cases typed.1

theorem constantInhabits (c : Constant) : c.value.Inhabits c.type := by
  cases c <;> exact ⟨rfl,by simp [Constant.type,Constant.value]⟩

theorem arrayInhabits (id : ArrayId) (element : StaticType) :
    (array id).Inhabits (.array element) :=
  ⟨rfl,fun impossible => by cases impossible⟩

theorem asObjectInhabits (v : Value) : v.asObject.Inhabits .object :=
  ⟨v.asObjectFits,fun impossible => by cases impossible⟩

theorem convertInhabits (v : Value) (target : Scalar) :
    (v.convert target).Inhabits target.type := by
  cases target <;> exact ⟨rfl,by simp [Scalar.type,convert]⟩

structure Typed (strict : Prop) (v : Value) (t : StaticType) : Prop where
  raw : t ≠ .object → v.isRaw = t.isValueType
  inhabits : strict → v.Inhabits t

theorem Inhabits.typed {v : Value} {t : StaticType} (inhabits : v.Inhabits t) (strict : Prop) :
    v.Typed strict t :=
  ⟨fun _ => fitsRaw inhabits.1,fun _ => inhabits⟩

theorem Typed.anyArray {strict : Prop} {v : Value} {element other : StaticType}
    (typed : v.Typed strict (.array element)) : v.Typed strict (.array other) := by
  refine ⟨fun _ => typed.raw StaticType.noConfusion,?_⟩
  intro holds
  obtain ⟨fits,_⟩ := typed.inhabits holds
  refine ⟨?_,fun impossible => by cases impossible⟩
  cases v <;> first | rfl | cases fits

theorem initialTyped {strict : Prop} {t : StaticType}
    (inhabited : strict → t ≠ .void ∧ t ≠ .string) : t.initial.Typed strict t := by
  constructor
  · intro _
    cases t <;> rfl
  · intro holds
    obtain ⟨solid,other⟩ := inhabited holds
    exact ⟨StaticType.initialFits solid,fun same => absurd same other⟩

theorem asObjectSame {v : Value} (object : v.isRaw = false) : v.asObject = v := by
  simp [asObject,object]

theorem convertBoxed {v : Value} (raw : v.isRaw = true) (target : Scalar) :
    (boxed v).convert target = v.convert target := by
  cases v with
  | int | long | decimal | bool => cases target <;> rfl
  | null | string | boxed | array | store => cases raw

theorem convertToScalar (v : Value) (target : Scalar) :
    v.convertTo target.type = v.convert target := by
  cases target <;> rfl

end Value

inductive Coerces : StaticType → StaticType → List Instruction → Prop where
  | same (t) : Coerces t t []
  | boxed (top) (valueType : top.isValueType = true) : Coerces top .object [.box top]
  | object (top) (reference : top.isValueType = false) (other : top ≠ .object) :
      Coerces top .object []
  | array (element) (other : element ≠ .object) : Coerces (.array element) (.array .object) []
  | forced (top) (target : Scalar) (reference : top.isValueType = false)
      (other : top ≠ target.type) : Coerces top target.type [.call (.force target)]
  | boxedForced (top) (target : Scalar) (valueType : top.isValueType = true)
      (other : top ≠ target.type) : Coerces top target.type [.box top,.call (.force target)]

theorem scalarType {t : StaticType} {target : Scalar} (scalar : t.scalar? = some target) :
    target.type = t := by
  cases t <;> cases scalar <;> rfl

theorem Coercion.coerces {top wanted : StaticType} {c : Coercion}
    (found : Coercion.find? top wanted = some c) : Coerces top wanted c.code := by
  obtain ⟨kind,known,rfl⟩ := Option.map_eq_some_iff.mp found
  unfold kind? at known
  split at known
  · rename_i same
    cases known
    subst same
    exact .same top
  · split at known
    · cases known
    · rename_i different solid
      split at known
      · by_cases valueType : top.isValueType = true
        · rw [if_pos valueType] at known
          cases known
          exact .boxed top valueType
        · rw [if_neg valueType] at known
          cases known
          exact .object top (by simpa using valueType) different
      · by_cases array : top.isArray = true
        · rw [if_pos array] at known
          cases known
          cases top with
          | array element => exact .array element fun same => different (by rw [same])
          | void | string | decimal | long | int | bool | object => cases array
        · rw [if_neg array] at known
          cases known
      · obtain ⟨target,scalar,rfl⟩ := Option.map_eq_some_iff.mp known
        rw [← scalarType scalar] at different ⊢
        by_cases valueType : top.isValueType = true
        · rw [if_pos valueType]
          exact .boxedForced top target valueType different
        · rw [if_neg valueType]
          exact .forced top target (by simpa using valueType) different

theorem Coerces.solid {top wanted : StaticType} {code : List Instruction}
    (coerces : Coerces top wanted code) (solid : top ≠ .void) : wanted ≠ .void := by
  cases coerces with
  | same => exact solid
  | forced top target | boxedForced top target => cases target <;> exact StaticType.noConfusion
  | boxed | object | array => exact StaticType.noConfusion

end ScriptMachine
