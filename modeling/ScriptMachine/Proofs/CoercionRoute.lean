import ScriptMachine.Compile.Draft
import ScriptMachine.Proofs.Refinement
/-! What a coercion does. Its code replaces the value on top of the stack by the
value converted, whatever lies below it and wherever the code stands, and a value
that is made an object on the way comes out the same. Only arrays are ever refused. -/
namespace ScriptMachine

namespace Value

theorem convertAsObject (v : Value) (target : Scalar) :
    v.asObject.convert target = v.convert target := by
  unfold asObject
  split
  · rename_i raw
    exact convertBoxed raw target
  · rfl

theorem Inhabits.convertSelf {v : Value} {target : Scalar} (typed : v.Inhabits target.type) :
    v.convert target = v := by
  obtain ⟨fits,text⟩ := typed
  cases target with
  | string =>
    cases v with
    | string s => rfl
    | null => exact absurd rfl (text rfl)
    | int | long | decimal | bool | boxed | array | store => cases fits
  | int =>
    cases v with
    | int n => simp [convert,toInt,toLong,number?,unboxed,Number.toLong]
    | null | string | long | decimal | bool | boxed | array | store => cases fits
  | decimal | long | bool =>
    cases v <;> first | rfl | cases fits

end Value

theorem StaticType.plainCases {wanted : StaticType} (solid : wanted ≠ .void)
    (plain : wanted.isArray = false) :
    wanted = .object ∨ ∃ target : Scalar, wanted = target.type := by
  cases wanted with
  | object => exact .inl rfl
  | string => exact .inr ⟨.string,rfl⟩
  | decimal => exact .inr ⟨.decimal,rfl⟩
  | long => exact .inr ⟨.long,rfl⟩
  | int => exact .inr ⟨.int,rfl⟩
  | bool => exact .inr ⟨.bool,rfl⟩
  | void => exact absurd rfl solid
  | array => cases plain

namespace TypedValue
variable {r : TypedValue}

theorem convertToSame (r : TypedValue) : r.convertTo r.type = r.value := by
  simp [convertTo]

theorem convertToObject (typed : r.value.Inhabits r.type) :
    r.convertTo .object = r.value.asObject := by
  unfold convertTo
  split
  · rename_i object
    have raw : r.value.isRaw = false := by
      rw [Value.fitsRaw typed.1,object]
      rfl
    rw [Value.asObjectSame raw]
  · rfl

theorem convertToScalar (typed : r.value.Inhabits r.type) (target : Scalar) :
    r.convertTo target.type = r.value.convert target := by
  unfold convertTo
  split
  · rename_i same
    rw [same] at typed
    exact typed.convertSelf.symm
  · exact Value.convertToScalar r.value target

theorem convertToArray (element : StaticType) (v : Value) :
    (⟨.array element,v⟩ : TypedValue).convertTo (.array .object) = v := by
  unfold convertTo
  split <;> rfl

theorem convertToInhabits (typed : r.value.Inhabits r.type) {wanted : StaticType}
    {code : List Instruction} (coerces : Coerces r.type wanted code) :
    (r.convertTo wanted).Inhabits wanted := by
  obtain ⟨type,v⟩ := r
  cases coerces with
  | same => rwa [convertToSame]
  | boxed | object =>
    rw [convertToObject typed]
    exact v.asObjectInhabits
  | array element other =>
    rw [convertToArray]
    exact ((typed.typed True).anyArray).inhabits trivial
  | forced source target | boxedForced source target =>
    rw [convertToScalar typed]
    exact v.convertInhabits target

theorem convertToPlain (typed : r.value.Inhabits r.type) {wanted : StaticType}
    (solid : wanted ≠ .void) (plain : wanted.isArray = false) :
    r.convertTo wanted = r.value.convertTo wanted := by
  rcases StaticType.plainCases solid plain with rfl | ⟨target,rfl⟩
  · exact convertToObject typed
  · rw [convertToScalar typed,Value.convertToScalar]

theorem convertThroughObject (typed : r.value.Inhabits r.type) {wanted : StaticType}
    (solid : wanted ≠ .void) (plain : wanted.isArray = false) :
    (⟨.object,r.convertTo .object⟩ : TypedValue).convertTo wanted = r.convertTo wanted := by
  have object : (r.convertTo .object).Inhabits .object := by
    rw [convertToObject typed]
    exact r.value.asObjectInhabits
  rcases StaticType.plainCases solid plain with rfl | ⟨target,rfl⟩
  · exact convertToSame _
  · rw [convertToScalar object,convertToScalar typed,convertToObject typed,Value.convertAsObject]

end TypedValue

/-- The code replaces one value on top of the stack by the other and changes nothing
else, wherever it stands and whatever lies below. It needs no more room. -/
def Replaces (code : List Instruction) (v w : Value) : Prop :=
  ∀ (setting : Setting) (offset : Nat) (m : Machine) (rest : List Value), m.stack = v :: rest →
    m.stack.length ≤ setting.limit →
    (runFrom setting offset code).run m = .ok () (m.withStack (w :: rest))

namespace Replaces
variable {u v w : Value}

theorem nothing (v : Value) : Replaces [] v v := by
  intro setting offset m rest top room
  rw [← top]
  rfl

theorem append {first second : List Instruction} (before : Replaces first u v)
    (behind : Replaces second v w) : Replaces (first ++ second) u w := by
  intro setting offset m rest top room
  have kept : (m.withStack (v :: rest)).stack.length ≤ setting.limit := by
    rw [top] at room
    exact room
  rw [runAppend,before setting offset m rest top room]
  exact behind setting _ (m.withStack (v :: rest)) rest rfl kept

theorem boxing (t : StaticType) (raw : v.isRaw = true) : Replaces [.box t] v (.boxed v) := by
  intro setting offset m rest top room
  rw [runCons,boxStep t raw top room]
  rfl

theorem forcing (target : Scalar) (object : v.isRaw = false) :
    Replaces [.call (.force target)] v (v.convert target) := by
  intro setting offset m rest top room
  rw [runCons,(forceStep target top room).passes object]
  rfl

end Replaces

theorem Coerces.replaces {r : TypedValue} {wanted : StaticType} {code : List Instruction}
    (coerces : Coerces r.type wanted code) (typed : r.value.Inhabits r.type) :
    Replaces code r.value (r.convertTo wanted) := by
  obtain ⟨type,v⟩ := r
  have raw := Value.fitsRaw typed.1
  cases coerces with
  | same =>
    rw [TypedValue.convertToSame]
    exact .nothing v
  | object source reference other =>
    rw [TypedValue.convertToObject typed,Value.asObjectSame (raw.trans reference)]
    exact .nothing v
  | array element other =>
    rw [TypedValue.convertToArray]
    exact .nothing v
  | boxed source valueType =>
    rw [TypedValue.convertToObject typed,Value.asObject,if_pos (raw.trans valueType)]
    exact .boxing type (raw.trans valueType)
  | forced source target reference other =>
    rw [TypedValue.convertToScalar typed]
    exact .forcing target (raw.trans reference)
  | boxedForced source target valueType other =>
    rw [TypedValue.convertToScalar typed,← Value.convertBoxed (raw.trans valueType)]
    exact (Replaces.boxing type (raw.trans valueType)).append (.forcing target rfl)

namespace Coercion
variable {top wanted : StaticType}

theorem findNone (solid : top ≠ .void) (target : wanted ≠ .void) :
    find? top wanted = none ↔
      top ≠ wanted ∧ wanted.isArray = true ∧ ¬ (wanted = .array .object ∧ top.isArray = true) := by
  unfold find? kind?
  rw [Option.map_eq_none_iff]
  by_cases same : top = wanted
  · simp [same]
  · rw [if_neg same,if_neg solid]
    cases wanted with
    | void => exact absurd rfl target
    | object => simp [StaticType.isArray]
    | string | decimal | long | int | bool => simp [StaticType.scalar?,StaticType.isArray]
    | array element =>
      have array : (StaticType.array element).isArray = true := rfl
      cases element <;> simp [same,StaticType.scalar?,array]

theorem findPlain {top : StaticType} (wanted : StaticType) (solid : top ≠ .void)
    (target : wanted ≠ .void) (plain : wanted.isArray = false) :
    ∃ c, find? top wanted = some c := by
  refine Option.ne_none_iff_exists'.mp ?_
  rw [Ne,findNone solid target,plain]
  simp

end Coercion

theorem CompileM.coerceRun (top wanted : StaticType) (span : Span) (d : Draft) :
    (coerce top wanted span).run d = match Coercion.find? top wanted with
      | some c => .ok c.code d
      | none => .error (.unresolvedCoercion top wanted span) d := by
  unfold coerce
  cases Coercion.find? top wanted <;> rfl

theorem coercionsAreSound {top wanted : StaticType} (solid : top ≠ .void)
    (target : wanted ≠ .void) :
    (Coercion.find? top wanted = none ↔ top ≠ wanted ∧ wanted.isArray = true ∧
      ¬ (wanted = .array .object ∧ top.isArray = true)) ∧
    (∀ (span : Span) (d : Draft), (CompileM.coerce top wanted span).run d =
      match Coercion.find? top wanted with
      | some c => .ok c.code d
      | none => .error (.unresolvedCoercion top wanted span) d) ∧
    ∀ c, Coercion.find? top wanted = some c → ∀ v : Value, v.Inhabits top →
      ∃ w : Value, Replaces c.code v w ∧ w.Inhabits wanted ∧
        (wanted.isArray = false → ∃ boxing forcing, Coercion.find? top .object = some boxing ∧
          Coercion.find? .object wanted = some forcing ∧
          Replaces (boxing.code ++ forcing.code) v w) := by
  refine ⟨Coercion.findNone solid target,CompileM.coerceRun top wanted,?_⟩
  intro c found v typed
  have coerces := Coercion.coerces found
  have held : (⟨top,v⟩ : TypedValue).value.Inhabits top := typed
  refine ⟨(⟨top,v⟩ : TypedValue).convertTo wanted,coerces.replaces held,
    TypedValue.convertToInhabits held coerces,?_⟩
  intro plain
  obtain ⟨boxing,first⟩ := Coercion.findPlain .object solid (by decide) rfl
  obtain ⟨forcing,second⟩ := @Coercion.findPlain .object wanted (by decide) target plain
  have object := TypedValue.convertToInhabits held (Coercion.coerces first)
  have behind := (Coercion.coerces second).replaces
    (r := ⟨.object,(⟨top,v⟩ : TypedValue).convertTo .object⟩) object
  rw [TypedValue.convertThroughObject held target plain] at behind
  exact ⟨boxing,forcing,first,second,((Coercion.coerces first).replaces held).append behind⟩

theorem fractionCoerced :
    StaticType.decimal ≠ .void ∧ StaticType.int ≠ .void ∧
    Coercion.find? .decimal .int = some ⟨.force (some .decimal) .int,.int⟩ ∧
    (Value.decimal ⟨true,1999,3,by decide,by decide⟩).Inhabits .decimal ∧
    ∃ w : Value, Replaces [.box .decimal,.call (.force .int)]
        (.decimal ⟨true,1999,3,by decide,by decide⟩) w ∧ w.Inhabits .int ∧
      ∃ boxing forcing, Coercion.find? .decimal .object = some boxing ∧
        Coercion.find? .object .int = some forcing ∧
        Replaces (boxing.code ++ forcing.code) (.decimal ⟨true,1999,3,by decide,by decide⟩) w := by
  have typed : (Value.decimal ⟨true,1999,3,by decide,by decide⟩).Inhabits .decimal :=
    ⟨rfl,by simp⟩
  obtain ⟨_,_,sound⟩ := @coercionsAreSound .decimal .int (by decide) (by decide)
  obtain ⟨w,replaces,fits,route⟩ := sound _ rfl _ typed
  exact ⟨by decide,by decide,rfl,typed,w,replaces,fits,route rfl⟩

end ScriptMachine
