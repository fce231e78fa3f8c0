import ScriptMachine.Proofs.TextConversion
/-! Integer targets. The fraction of a number is dropped toward zero. Inside the 64-bit
range the result is the number itself, and its low 32 bits for the smaller target. A
number beyond the range is not reduced to it: it becomes the end that it lies beyond,
and the smaller target takes the low bits of that end. -/
namespace ScriptMachine

theorem Decimal.integerPartTruncates (d : Decimal) :
    d.integerPart = d.unscaled.tdiv (Nat.pow 10 d.scale) := by
  unfold integerPart unscaled
  cases d.negative with
  | false => exact (Int.ofNat_tdiv _ _).symm
  | true =>
    simp only [if_true,Int.neg_tdiv]
    exact congrArg Neg.neg (Int.ofNat_tdiv _ _).symm

theorem longOfResidue (n : Int64) (z : Int) :
    n = Int64.ofInt z ↔ z % 0x10000000000000000 = n.toInt % 0x10000000000000000 := by
  have low := Int64.le_toInt n
  have high := Int64.toInt_lt n
  rw [← Int64.toInt_inj,Int64.toInt_ofInt,Int.bmod_def]
  simp only [Int64.size]
  omega

theorem intOfResidue (n : Int32) (z : Int) :
    n = Int32.ofInt z ↔ z % 0x100000000 = n.toInt % 0x100000000 := by
  have low := Int32.le_toInt n
  have high := Int32.toInt_lt n
  rw [← Int32.toInt_inj,Int32.toInt_ofInt,Int.bmod_def]
  simp only [Int32.size]
  omega

def Value.Denotes (v : Value) (d : Decimal) : Prop :=
  v.unboxed = .decimal d ∨
    ∃ s n, v.unboxed = .string s ∧ Number.read? s = some n ∧ n.toDecimal = d

theorem Value.Denotes.long {v : Value} {d : Decimal} (denotes : v.Denotes d) :
    v.toLong = Number.clamp d.integerPart := by
  rcases denotes with holds | ⟨s,n,holds,read,rfl⟩
  · simp only [toLong,number?,holds,Number.toLong]
  · simp only [toLong,number?,holds,read,n.means.long]

theorem longsStopAtTheEnds {v : Value} {d : Decimal} (denotes : v.Denotes d) {z : Int}
    (whole : z = d.unscaled.tdiv (Nat.pow 10 d.scale)) :
    (Int64.minValue.toInt ≤ z ∧ z ≤ Int64.maxValue.toInt →
      v.toLong = Int64.ofInt z ∧ v.toInt = Int32.ofInt z) ∧
    (Int64.maxValue.toInt < z →
      v.toLong = Int64.maxValue ∧ v.toInt = -1 ∧
      (v.toLong = Int64.ofInt z ↔ z % 0x10000000000000000 = 0x7fffffffffffffff) ∧
      (v.toInt = Int32.ofInt z ↔ z % 0x100000000 = 0xffffffff)) ∧
    (z < Int64.minValue.toInt →
      v.toLong = Int64.minValue ∧ v.toInt = 0 ∧
      (v.toLong = Int64.ofInt z ↔ z % 0x10000000000000000 = 0x8000000000000000) ∧
      (v.toInt = Int32.ofInt z ↔ z % 0x100000000 = 0)) := by
  have long := denotes.long
  rw [d.integerPartTruncates,← whole] at long
  refine ⟨?_,?_,?_⟩
  · intro inside
    rw [Number.clamp,if_neg (Int.not_lt.mpr inside.1),if_neg (Int.not_lt.mpr inside.2)] at long
    exact ⟨long,by rw [Value.toInt,long,Int64.toInt32_ofInt]⟩
  · intro above
    have order : Int64.minValue.toInt ≤ Int64.maxValue.toInt := by decide
    rw [Number.clamp,if_neg (by omega),if_pos above] at long
    have int : v.toInt = -1 := by
      rw [Value.toInt,long]
      rfl
    refine ⟨long,int,?_,?_⟩
    · rw [long]
      exact longOfResidue Int64.maxValue z
    · rw [int]
      exact intOfResidue (-1) z
  · intro below
    rw [Number.clamp,if_pos below] at long
    have int : v.toInt = 0 := by
      rw [Value.toInt,long]
      rfl
    refine ⟨long,int,?_,?_⟩
    · rw [long]
      exact longOfResidue Int64.minValue z
    · rw [int]
      exact intOfResidue 0 z

def pastLowest : Decimal := ⟨true,92233720368547758095,1,by decide,by decide⟩

def pastInts : Decimal := ⟨false,42949673015,1,by decide,by decide⟩

theorem pastLowestStops :
    (Value.boxed (.string " -9223372036854775809.5")).Denotes pastLowest ∧
    (Value.boxed (.string " -9223372036854775809.5")).toLong = Int64.minValue ∧
    (Value.boxed (.string " -9223372036854775809.5")).toInt = 0 ∧
    (Value.boxed (.string " -9223372036854775809.5")).toLong ≠
      Int64.ofInt (-9223372036854775809) ∧
    (Value.decimal pastInts).Denotes pastInts ∧
    (Value.decimal pastInts).toLong = 4294967301 ∧ (Value.decimal pastInts).toInt = 5 := by
  have text : (Value.boxed (.string " -9223372036854775809.5")).Denotes pastLowest :=
    .inr ⟨_,.fraction pastLowest,rfl,by decide +kernel,rfl⟩
  have below : (-9223372036854775809 : Int) =
      pastLowest.unscaled.tdiv (Nat.pow 10 pastLowest.scale) := by decide
  have above : (4294967301 : Int) = pastInts.unscaled.tdiv (Nat.pow 10 pastInts.scale) := by decide
  obtain ⟨_,_,stops⟩ := longsStopAtTheEnds text below
  obtain ⟨long,int,same,_⟩ := stops (by decide)
  obtain ⟨inside,_,_⟩ := longsStopAtTheEnds (v := .decimal pastInts) (.inl rfl) above
  obtain ⟨whole,wrapped⟩ := inside (by decide)
  refine ⟨text,long,int,?_,.inl rfl,whole,wrapped⟩
  intro reduced
  cases same.mp reduced

theorem pastHighestIsNotReduced :
    ∃ d, Decimal.read? "9223372036854775808".toList = some d ∧
    d.unscaled.tdiv (Nat.pow 10 d.scale) = 9223372036854775808 ∧
    (Value.decimal d).toLong = Int64.maxValue ∧
    Int64.ofInt 9223372036854775808 = Int64.minValue ∧
    (Value.decimal d).toInt = -1 ∧ Int32.ofInt 9223372036854775808 = 0 :=
  ⟨⟨false,9223372036854775808,0,by decide,by decide⟩,by decide +kernel⟩

end ScriptMachine
