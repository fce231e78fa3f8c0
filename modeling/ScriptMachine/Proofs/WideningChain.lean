import ScriptMachine.Proofs.CoercionRoute
import ScriptMachine.Proofs.TextConversion
/-! Chains of coercions. An integer that is made a number of more digits, a text or
an object, in any order and as often as one likes, is still the same integer when it
is wanted back. -/
namespace ScriptMachine

def Coercion.chain? : StaticType → List StaticType → Option (List Instruction)
  | _,[] => some []
  | top,wanted :: rest => do
    let c ← find? top wanted
    let more ← chain? wanted rest
    some (c.code ++ more)

/-- A number of 64 bits can be written in the type. In 32 bits not all of them can. -/
def StaticType.Widens (k : Int64) : StaticType → Prop
  | long | decimal | string | object => True
  | int => k.toInt32.toInt64 = k
  | bool | void | array _ => False

theorem StaticType.Widens.plain {k : Int64} {t : StaticType} (widens : t.Widens k) :
    t ≠ .void ∧ t.isArray = false := by
  cases t with
  | void | array => cases widens
  | string | decimal | long | int | bool | object => exact ⟨StaticType.noConfusion,rfl⟩

def Value.Reads (v : Value) (k : Int64) : Prop :=
  ∃ n, v.number? = some n ∧ n.toLong = k

namespace Value.Reads
variable {v : Value} {k : Int64}

theorem toLong (reads : v.Reads k) : v.toLong = k := by
  obtain ⟨n,number,rfl⟩ := reads
  simp only [Value.toLong,number]

theorem asObject (reads : v.Reads k) : v.asObject.Reads k := by
  unfold Value.asObject
  split
  · rename_i raw
    obtain ⟨n,number,long⟩ := reads
    have inside : (boxed v).unboxed = v.unboxed := by cases v <;> first | rfl | cases raw
    exact ⟨n,(sameInside inside).1.trans number,long⟩
  · exact reads

theorem toDecimal (reads : v.Reads k) : (decimal v.toDecimal).Reads k := by
  obtain ⟨n,number,rfl⟩ := reads
  have value : v.toDecimal = n.toDecimal := by simp only [Value.toDecimal,number]
  rw [value]
  exact ⟨.fraction n.toDecimal,rfl,n.means.long.symm⟩

theorem toText (reads : v.Reads k) : (string v.toText).Reads k := by
  by_cases written : ∃ s, v.unboxed = string s
  · obtain ⟨s,inside⟩ := written
    obtain ⟨number,text,_⟩ := sameInside (w := string s) inside
    obtain ⟨n,found,long⟩ := reads
    rw [text]
    exact ⟨n,number.symm.trans found,long⟩
  · obtain ⟨n,number,rfl⟩ := reads
    obtain ⟨text,_⟩ := numberText number fun s inside => written ⟨s,inside⟩
    obtain ⟨m,read,means⟩ := Number.readNormalized n.toDecimal
    rw [← text] at read
    exact ⟨m,read,means.long.trans n.means.long.symm⟩

theorem convert (reads : v.Reads k) {target : Scalar} (widens : target.type.Widens k) :
    (v.convert target).Reads k := by
  cases target with
  | string => exact reads.toText
  | decimal => exact reads.toDecimal
  | long => exact ⟨.integer v.toLong,rfl,reads.toLong⟩
  | int =>
    refine ⟨.integer v.toInt.toInt64,rfl,?_⟩
    rw [Value.toInt,reads.toLong]
    exact widens
  | bool => cases widens

theorem convertTo {r : TypedValue} (typed : r.value.Inhabits r.type) (reads : r.value.Reads k)
    {wanted : StaticType} (widens : wanted.Widens k) : (r.convertTo wanted).Reads k := by
  have scalar (target : Scalar) (widens : target.type.Widens k) :
      (r.convertTo target.type).Reads k := by
    rw [TypedValue.convertToScalar typed]
    exact reads.convert widens
  cases wanted with
  | object =>
    rw [TypedValue.convertToObject typed]
    exact reads.asObject
  | string => exact scalar .string widens
  | decimal => exact scalar .decimal widens
  | long => exact scalar .long widens
  | int => exact scalar .int widens
  | bool | void | array => cases widens

theorem intSame {n : Int32} (reads : v.Reads n.toInt64) (typed : v.Inhabits .int) :
    v = int n := by
  cases v with
  | int m =>
    have same : m.toInt64 = n.toInt64 := reads.toLong
    rw [← m.toInt32_toInt64,same,n.toInt32_toInt64]
  | null | long | decimal | bool | string | boxed | array | store => cases typed.1

theorem longSame (reads : v.Reads k) (typed : v.Inhabits .long) : v = long k := by
  cases v with
  | long m => rw [← reads.toLong]; rfl
  | null | int | decimal | bool | string | boxed | array | store => cases typed.1

end Value.Reads

theorem Coercion.chainKeeps {k : Int64} {types : List StaticType} {r : TypedValue}
    (typed : r.value.Inhabits r.type) (reads : r.value.Reads k)
    (widens : ∀ t ∈ types, t.Widens k) :
    ∃ code w, chain? r.type types = some code ∧ Replaces code r.value w ∧
      w.Inhabits (types.getLastD r.type) ∧ w.Reads k := by
  induction types generalizing r with
  | nil => exact ⟨[],r.value,rfl,.nothing r.value,typed,reads⟩
  | cons wanted rest ih =>
    simp only [List.mem_cons,forall_eq_or_imp] at widens
    obtain ⟨solid,plain⟩ := widens.1.plain
    obtain ⟨c,found⟩ := findPlain wanted (Value.fitsSolid typed.1) solid plain
    have coerces := coerces found
    obtain ⟨code,w,behind,replaces,last,kept⟩ := ih (r := ⟨wanted,r.convertTo wanted⟩)
      (TypedValue.convertToInhabits typed coerces) (reads.convertTo typed widens.1) widens.2
    refine ⟨c.code ++ code,w,?_,(coerces.replaces typed).append replaces,?_,kept⟩
    · simp only [chain?,found,behind,bind,Option.bind_some]
    · rw [List.getLastD_cons]
      exact last

theorem Coercion.chainReturns {k : Int64} {types : List StaticType} {r : TypedValue}
    (typed : r.value.Inhabits r.type) (reads : r.value.Reads k) (own : r.type.Widens k)
    (widens : ∀ t ∈ types, t.Widens k) :
    ∃ code w, chain? r.type (types ++ [r.type]) = some code ∧ Replaces code r.value w ∧
      w.Inhabits r.type ∧ w.Reads k := by
  have all : ∀ t ∈ types ++ [r.type], t.Widens k := by
    intro t member
    rcases List.mem_append.mp member with early | last
    · exact widens t early
    · rw [List.mem_singleton.mp last]
      exact own
  obtain ⟨code,w,found,replaces,last,kept⟩ := chainKeeps typed reads all
  rw [List.getLastD_concat] at last
  exact ⟨code,w,found,replaces,last,kept⟩

theorem wideningChainsLoseNothing :
    (∀ (n : Int32) (types : List StaticType),
      (∀ t ∈ types, t ∈ [.int,.long,.decimal,.string,.object]) →
      ∃ code, Coercion.chain? .int (types ++ [.int]) = some code ∧
        Replaces code (.int n) (.int n)) ∧
    ∀ (n : Int64) (types : List StaticType), (∀ t ∈ types, t ∈ [.long,.decimal,.string,.object]) →
      ∃ code, Coercion.chain? .long (types ++ [.long]) = some code ∧
        Replaces code (.long n) (.long n) := by
  constructor
  · intro n types wide
    have own : StaticType.int.Widens n.toInt64 := by simp [StaticType.Widens]
    have widens : ∀ t ∈ types, t.Widens n.toInt64 := by
      intro t member
      have one := wide t member
      simp only [List.mem_cons,List.not_mem_nil,or_false] at one
      rcases one with rfl | rfl | rfl | rfl | rfl
      · exact own
      all_goals trivial
    obtain ⟨code,w,found,replaces,typed,reads⟩ :=
      Coercion.chainReturns (r := ⟨.int,.int n⟩) ⟨rfl,by simp⟩ ⟨.integer n.toInt64,rfl,rfl⟩ own widens
    rw [reads.intSame typed] at replaces
    exact ⟨code,found,replaces⟩
  · intro n types wide
    have widens : ∀ t ∈ types, t.Widens n := by
      intro t member
      have one := wide t member
      simp only [List.mem_cons,List.not_mem_nil,or_false] at one
      rcases one with rfl | rfl | rfl | rfl <;> trivial
    obtain ⟨code,w,found,replaces,typed,reads⟩ :=
      Coercion.chainReturns (r := ⟨.long,.long n⟩) ⟨rfl,by simp⟩ ⟨.integer n,rfl,rfl⟩ trivial widens
    rw [reads.longSame typed] at replaces
    exact ⟨code,found,replaces⟩

theorem lowestIntegersComeBack :
    (∃ code, Coercion.chain? .int [.decimal,.string,.object,.long,.int,.object,.string,.int] =
        some code ∧ Replaces code (.int Int32.minValue) (.int Int32.minValue)) ∧
    ∃ code, Coercion.chain? .long [.object,.decimal,.string,.decimal,.object,.string,.long] =
        some code ∧ Replaces code (.long Int64.minValue) (.long Int64.minValue) :=
  ⟨wideningChainsLoseNothing.1 Int32.minValue
      [.decimal,.string,.object,.long,.int,.object,.string] (by decide),
    wideningChainsLoseNothing.2 Int64.minValue
      [.object,.decimal,.string,.decimal,.object,.string] (by decide)⟩

end ScriptMachine
