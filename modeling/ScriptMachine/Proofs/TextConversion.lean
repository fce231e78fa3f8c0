import ScriptMachine.Conversion
/-! Numbers written as text and read again. The text of a number may be read by
another reader than the one for its own type, as a 64-bit integer or as a
decimal, and always means the number that was written. So a value that is first
converted to text converts on as the value itself does. -/
namespace ScriptMachine

namespace Text

theorem digitRange {c : Char} {d : Nat} (digit : digit? 10 c = some d) :
    48 ≤ c.toNat ∧ c.toNat ≤ 57 := by
  by_cases range : 48 ≤ c.toNat ∧ c.toNat ≤ 57
  · exact range
  · have value : ∀ n, 10 ≤ n → (if n < 10 then some n else none) ≠ some d := by
      intro n large found
      rw [if_neg (by omega)] at found
      cases found
    simp only [digit?,if_neg range] at digit
    refine absurd digit (value _ ?_)
    split
    · omega
    · split <;> omega

theorem isDigitRange {c : Char} (digit : isDigit c = true) : 48 ≤ c.toNat ∧ c.toNat ≤ 57 := by
  obtain ⟨d,found⟩ := Option.isSome_iff_exists.mp digit
  exact digitRange found

theorem readOnEach {base acc n : Nat} {cs : List Char} (read : readOn base acc cs = some n) :
    ∀ c ∈ cs, ∃ d, digit? base c = some d := by
  induction cs generalizing acc with
  | nil => simp
  | cons c rest ih =>
    simp only [readOn,bind,Option.bind_eq_some_iff] at read
    obtain ⟨d,digit,more⟩ := read
    simp only [List.mem_cons,forall_eq_or_imp]
    exact ⟨⟨d,digit⟩,ih more⟩

theorem readOnDigits {acc n : Nat} {cs : List Char} (read : readOn 10 acc cs = some n) :
    ∀ c ∈ cs, isDigit c = true := by
  intro c member
  obtain ⟨d,digit⟩ := readOnEach read c member
  simp [isDigit,digit]

theorem readOnGrows {acc n : Nat} {cs : List Char} (read : readOn 10 acc cs = some n) : acc ≤ n := by
  induction cs generalizing acc with
  | nil =>
    cases read
    exact Nat.le_refl _
  | cons c rest ih =>
    simp only [readOn,bind,Option.bind_eq_some_iff] at read
    obtain ⟨d,digit,more⟩ := read
    have further := ih more
    omega

theorem readOnZeros {base : Nat} (some : 0 < base) (count : Nat) (cs : List Char) :
    readOn base 0 (List.replicate count '0' ++ cs) = readOn base 0 cs := by
  have zero : digit? base '0' = .some 0 := if_pos some
  induction count with
  | zero => rfl
  | succ count ih => simpa [List.replicate_succ,readOn,zero] using ih

def Numeral (c : Char) : Prop :=
  isDigit c = true ∨ c = '.' ∨ c = '-'

theorem numeralNotBlank {c : Char} (numeral : Numeral c) : isBlank c = false := by
  rcases numeral with digit | rfl | rfl
  · have range := isDigitRange digit
    simp [isBlank,blankRanges]
    omega
  · rfl
  · rfl

theorem trimAround {before cs after : List Char} (front : ∀ c ∈ before, isBlank c = true)
    (solid : ∀ c ∈ cs, isBlank c = false) (back : ∀ c ∈ after, isBlank c = true) :
    trim (before ++ cs ++ after) = cs := by
  have kept : ∀ ds : List Char, (∀ c ∈ ds, isBlank c = false) → ds.dropWhile isBlank = ds := by
    intro ds clean
    cases ds with
    | nil => rfl
    | cons d rest => simp [clean d List.mem_cons_self]
  have behind : ((cs ++ after).dropWhile isBlank).reverse.dropWhile isBlank = cs.reverse := by
    have reversed : ∀ c ∈ cs.reverse, isBlank c = false := by simpa using solid
    have ending : ∀ c ∈ after.reverse, isBlank c = true := by simpa using back
    cases cs with
    | nil =>
      have nothing := @List.dropWhile_append_of_pos _ isBlank after [] back
      rw [List.append_nil] at nothing
      simp [nothing]
    | cons c rest =>
      rw [List.cons_append,List.dropWhile_cons_of_neg (by simp [solid c List.mem_cons_self]),
        ← List.cons_append,List.reverse_append,List.dropWhile_append_of_pos ending,kept _ reversed]
  rw [trim,List.append_assoc,List.dropWhile_append_of_pos front,behind,List.reverse_reverse]

theorem trimNumerals {cs : List Char} (numerals : ∀ c ∈ cs, Numeral c) : trim cs = cs := by
  have nothing : ∀ c ∈ ([] : List Char), isBlank c = true := by simp
  simpa using trimAround nothing (fun c member => numeralNotBlank (numerals c member)) nothing

theorem splitSignDigit {c : Char} (rest : List Char) (digit : isDigit c = true) :
    splitSign (c :: rest) = (false,c :: rest) := by
  have range := isDigitRange digit
  unfold splitSign
  split
  · rename_i same
    cases same
    simp at range
  · rename_i same
    cases same
    simp at range
  · rfl

end Text

namespace Decimal
open Text

theorem readDigitsFront {m n s : Nat} {cs : List Char} (rest : List Char)
    (read : readOn 10 m cs = some n) (fits : n < bound) :
    readDigits false m s (cs ++ rest) = readDigits false n s rest := by
  induction cs generalizing m with
  | nil =>
    cases read
    rfl
  | cons c cs ih =>
    simp only [readOn,bind,Option.bind_eq_some_iff] at read
    obtain ⟨d,digit,more⟩ := read
    have range := digitRange digit
    have small := readOnGrows more
    have other : c ≠ '.' := by
      rintro rfl
      simp at range
    rw [List.cons_append,readDigits,if_neg other]
    simp only [digit,bind,Option.bind_some,Bool.false_eq_true,if_false]
    rw [if_neg (by omega)]
    exact ih more

theorem readDigitsBehind {m n s : Nat} {cs : List Char} (read : readOn 10 m cs = some n)
    (fits : n < bound) (places : s + cs.length ≤ maxScale) :
    readDigits true m s cs = some (n,s + cs.length) := by
  induction cs generalizing m s with
  | nil =>
    cases read
    rfl
  | cons c cs ih =>
    simp only [readOn,bind,Option.bind_eq_some_iff] at read
    obtain ⟨d,digit,more⟩ := read
    have range := digitRange digit
    have small := readOnGrows more
    have other : c ≠ '.' := by
      rintro rfl
      simp at range
    rw [List.length_cons] at places ⊢
    rw [readDigits,if_neg other]
    simp only [digit,bind,Option.bind_some,if_true]
    rw [if_neg (by omega),ih more (by omega)]
    congr 2
    omega

def digits (d : Decimal) : List Char :=
  padLeft (d.scale + 1) '0' (natText d.mantissa)

theorem readOnDecimalDigits (d : Decimal) : readOn 10 0 d.digits = some d.mantissa := by
  rw [digits,padLeft,readOnZeros (by decide),readOnNatText]

theorem digitsLength (d : Decimal) : d.scale < d.digits.length := by
  simp only [digits,padLeft,List.length_append,List.length_replicate]
  omega

theorem magnitudeWhole {d : Decimal} (whole : d.scale = 0) : d.magnitudeText = d.digits := by
  simp [magnitudeText,digits,whole]

theorem magnitudeSplit {d : Decimal} (places : d.scale ≠ 0) :
    ∃ front back n, d.magnitudeText = front ++ '.' :: back ∧ front ≠ [] ∧ back.length = d.scale ∧
      readOn 10 0 front = some n ∧ readOn 10 n back = some d.mantissa := by
  have long := d.digitsLength
  have read := d.readOnDecimalDigits
  rw [← List.take_append_drop (d.digits.length - d.scale) d.digits,readOnAppend,
    Option.bind_eq_some_iff] at read
  obtain ⟨n,front,back⟩ := read
  refine ⟨_,_,n,?_,?_,?_,front,back⟩
  · simp [magnitudeText,digits,places]
  · intro empty
    rw [List.take_eq_nil_iff] at empty
    rcases empty with none | none
    · omega
    · rw [none] at long
      cases long
  · rw [List.length_drop]
    omega

theorem magnitudeRead (d : Decimal) :
    readDigits false 0 0 d.magnitudeText = some (d.mantissa,d.scale) := by
  have fits : d.mantissa < bound := d.mantissaFits
  by_cases whole : d.scale = 0
  · have front := readDigitsFront (s := 0) [] d.readOnDecimalDigits fits
    rw [List.append_nil] at front
    rw [magnitudeWhole whole,front,whole]
    rfl
  · obtain ⟨front,back,n,text,_,length,before,behind⟩ := magnitudeSplit whole
    have small := readOnGrows behind
    have places : 0 + back.length ≤ maxScale := by
      rw [length,Nat.zero_add]
      exact d.scaleFits
    rw [text,readDigitsFront _ before (by omega),readDigits,if_pos rfl]
    simp only [Bool.false_eq_true,if_false]
    rw [readDigitsBehind behind fits places,length,Nat.zero_add]

theorem magnitudeStarts (d : Decimal) :
    ∃ c rest, d.magnitudeText = c :: rest ∧ isDigit c = true ∧
      ∀ x ∈ rest, isDigit x = true ∨ x = '.' := by
  have long := d.digitsLength
  by_cases whole : d.scale = 0
  · have all := readOnDigits d.readOnDecimalDigits
    rw [magnitudeWhole whole]
    cases found : d.digits with
    | nil =>
      rw [found] at long
      cases long
    | cons c rest =>
      rw [found] at all
      exact ⟨c,rest,rfl,all c List.mem_cons_self,
        fun x member => .inl (all x (List.mem_cons_of_mem c member))⟩
  · obtain ⟨front,back,n,text,some,length,before,behind⟩ := magnitudeSplit whole
    have first := readOnDigits before
    have last := readOnDigits behind
    cases front with
    | nil => exact absurd rfl some
    | cons c rest =>
      refine ⟨c,rest ++ '.' :: back,text,first c List.mem_cons_self,?_⟩
      intro x member
      rcases List.mem_append.mp member with early | late
      · exact .inl (first x (List.mem_cons_of_mem c early))
      · rcases List.mem_cons.mp late with rfl | later
        · exact .inr rfl
        · exact .inl (last x later)

theorem splitText (d : Decimal) : splitSign d.text = (d.negative,d.magnitudeText) := by
  obtain ⟨c,rest,starts,digit,_⟩ := d.magnitudeStarts
  unfold text
  cases d.negative with
  | true => rfl
  | false =>
    rw [starts]
    exact splitSignDigit rest digit

theorem textNumerals (d : Decimal) : ∀ c ∈ d.text, Numeral c := by
  obtain ⟨c,rest,starts,digit,others⟩ := d.magnitudeStarts
  have magnitude : ∀ x ∈ d.magnitudeText, Numeral x := by
    rw [starts]
    simp only [List.mem_cons,forall_eq_or_imp]
    exact ⟨.inl digit,fun x member => (others x member).imp_right .inl⟩
  unfold text
  cases d.negative with
  | false => exact magnitude
  | true =>
    simp only [if_true,List.mem_cons,forall_eq_or_imp]
    exact ⟨.inr (.inr rfl),magnitude⟩

theorem readText (d : Decimal) :
    read? d.text = some { d with negative := d.negative && d.mantissa != 0 } := by
  obtain ⟨c,rest,starts,digit,_⟩ := d.magnitudeStarts
  have some : d.magnitudeText.any isDigit = true := by simp [starts,digit]
  have plain : readPlain? d.text = .some { d with negative := d.negative && d.mantissa != 0 } := by
    unfold readPlain?
    simp only [splitText,some,if_true,magnitudeRead,bind,Option.bind_some,make?]
    rw [dif_pos ⟨d.mantissaFits,d.scaleFits⟩]
  simp [read?,plain]


theorem stripValue (m s : Nat) : (strip m s).1 * Nat.pow 10 (s - (strip m s).2) = m := by
  induction s generalizing m with
  | zero => simp [strip]
  | succ s ih =>
    unfold strip
    split
    · rename_i even
      have rest := ih (m / 10)
      have less := (stripSmaller (m / 10) s).2
      rw [Nat.succ_sub less,Nat.pow_eq,Nat.pow_succ,← Nat.mul_assoc,← Nat.pow_eq,rest]
      omega
    · simp

structure Shortens (short d : Decimal) : Prop where
  fewer : short.scale ≤ d.scale
  value : short.mantissa * Nat.pow 10 (d.scale - short.scale) = d.mantissa
  sign : short.negative = (d.negative && d.mantissa != 0)

theorem normalizeShortens (d : Decimal) : d.normalize.Shortens d := by
  unfold normalize
  split
  · rename_i none
    exact ⟨Nat.zero_le _,by simp [zero,none],by simp [zero,none]⟩
  · rename_i some
    exact ⟨(stripSmaller d.mantissa d.scale).2,stripValue d.mantissa d.scale,by simp [some]⟩

namespace Shortens
variable {short d : Decimal}

theorem powers (shortens : short.Shortens d) :
    Nat.pow 10 d.scale = Nat.pow 10 (d.scale - short.scale) * Nat.pow 10 short.scale := by
  rw [Nat.pow_eq,Nat.pow_eq,Nat.pow_eq,← Nat.pow_add,Nat.sub_add_cancel shortens.fewer]

theorem none (shortens : short.Shortens d) : short.mantissa = 0 ↔ d.mantissa = 0 := by
  have positive : Nat.pow 10 (d.scale - short.scale) ≠ 0 := Nat.ne_of_gt (Nat.pow_pos (by decide))
  rw [← shortens.value,Nat.mul_eq_zero]
  simp only [positive,or_false]

theorem zero (shortens : short.Shortens d) : short.isZero = d.isZero := by
  rw [isZero,isZero,Bool.eq_iff_iff,beq_iff_eq,beq_iff_eq]
  exact shortens.none

theorem unscaled (shortens : short.Shortens d) :
    short.unscaled * Nat.pow 10 (d.scale - short.scale) = d.unscaled := by
  have value := congrArg Int.ofNat shortens.value
  simp only [Int.ofNat_eq_natCast,Int.natCast_mul] at value
  simp only [Decimal.unscaled,shortens.sign]
  by_cases empty : d.mantissa = 0
  · simp [shortens.none.mpr empty,empty]
  · cases d.negative with
    | false => simpa [empty] using value
    | true =>
      have negated : (true && d.mantissa != 0) = true := by simp [empty]
      rw [if_pos negated,if_pos rfl,Int.neg_mul,value]

theorem sameNumber (shortens : short.Shortens d) {other : Decimal}
    (same : other.sameNumber short = true) : other.sameNumber d = true := by
  simp only [Decimal.sameNumber,beq_iff_eq] at same ⊢
  rw [← shortens.unscaled,shortens.powers,Int.natCast_mul,Int.mul_left_comm,same,
    Int.mul_right_comm,Int.mul_comm]

theorem integerPart (shortens : short.Shortens d) : short.integerPart = d.integerPart := by
  have positive : 0 < Nat.pow 10 (d.scale - short.scale) := Nat.pow_pos (by decide)
  have quotient : d.mantissa / Nat.pow 10 d.scale = short.mantissa / Nat.pow 10 short.scale := by
    rw [← shortens.value,shortens.powers,Nat.mul_comm,Nat.mul_div_mul_left _ _ positive]
  rw [Decimal.integerPart,Decimal.integerPart,quotient,shortens.sign]
  by_cases none : d.mantissa = 0
  · rw [← quotient]
    simp [none]
  · simp [none]

end Shortens

end Decimal

namespace Number
open Text

structure Means (n : Number) (d : Decimal) : Prop where
  same : n.toDecimal.sameNumber d = true
  long : n.toLong = clamp d.integerPart
  zero : n.isZero = d.isZero

theorem clampInside (n : Int64) : clamp n.toInt = n := by
  rw [clamp,if_neg (Int.not_lt.mpr (Int64.minValue_le_toInt n)),
    if_neg (Int.not_lt.mpr (Int64.toInt_le n)),Int64.ofInt_toInt]

theorem unscaledOfInt64 (n : Int64) : (Decimal.ofInt64 n).unscaled = n.toInt := by
  simp only [Decimal.unscaled,Decimal.ofInt64,decide_eq_true_eq]
  omega

theorem integerMeans {n : Int64} {d : Decimal} (whole : d.scale = 0) (value : n.toInt = d.unscaled) :
    (integer n).Means d := by
  have part : d.integerPart = n.toInt := by
    simp [Decimal.integerPart,whole,value,Decimal.unscaled]
  refine ⟨?_,?_,?_⟩
  · have scale : (Decimal.ofInt64 n).scale = 0 := rfl
    simp only [toDecimal,Decimal.sameNumber,whole,scale,unscaledOfInt64,value,beq_self_eq_true]
  · rw [part,clampInside]
    rfl
  · rw [isZero,Decimal.isZero,Bool.eq_iff_iff,beq_iff_eq,beq_iff_eq,← Int64.toInt_inj,value,
      Int64.toInt_zero,Decimal.unscaled]
    split <;> omega

theorem means (n : Number) : n.Means n.toDecimal := by
  cases n with
  | integer n => exact integerMeans rfl (unscaledOfInt64 n).symm
  | fraction d => exact ⟨by simp [toDecimal,Decimal.sameNumber],rfl,rfl⟩

theorem Means.ofShort {n : Number} {short d : Decimal} (means : n.Means short)
    (shortens : short.Shortens d) : n.Means d :=
  ⟨shortens.sameNumber means.same,means.long.trans (by rw [shortens.integerPart]),
    means.zero.trans shortens.zero⟩

theorem readNatMagnitude {d : Decimal} {k : Nat} (read : readNat? 10 d.magnitudeText = some k) :
    d.scale = 0 ∧ k = d.mantissa := by
  unfold readNat? at read
  split at read
  · cases read
  · by_cases whole : d.scale = 0
    · rw [Decimal.magnitudeWhole whole,Decimal.readOnDecimalDigits] at read
      cases read
      exact ⟨whole,rfl⟩
    · obtain ⟨front,back,n,text,_⟩ := Decimal.magnitudeSplit whole
      have point := readOnDigits read '.' (by simp [text])
      cases point

theorem readLongText {d : Decimal} {n : Int64} (read : readLong? d.text = some n) :
    d.scale = 0 ∧ n.toInt = d.unscaled := by
  simp only [readLong?,Decimal.splitText,bind,Option.bind_eq_some_iff] at read
  obtain ⟨k,digits,range⟩ := read
  obtain ⟨whole,rfl⟩ := readNatMagnitude digits
  refine ⟨whole,?_⟩
  change (if Int64.minValue.toInt ≤ d.unscaled ∧ d.unscaled ≤ Int64.maxValue.toInt then
    some (Int64.ofInt d.unscaled) else none) = some n at range
  split at range
  · rename_i inside
    cases range
    rw [Int64.toInt_minValue,Int64.toInt_maxValue] at inside
    exact Int64.toInt_ofInt_of_le inside.1 (Int.lt_of_le_sub_one inside.2)
  · cases range

theorem notHex (d : Decimal) {mark : Char} (letter : isDigit mark = false) (other : mark ≠ '.')
    (rest : List Char) : d.magnitudeText ≠ '0' :: mark :: rest := by
  obtain ⟨c,tail,starts,_,others⟩ := d.magnitudeStarts
  intro same
  rw [starts] at same
  cases same
  rcases others mark List.mem_cons_self with digit | point
  · rw [letter] at digit
    cases digit
  · exact other point

theorem readText (d : Decimal) : ∃ n, read? (String.ofList d.text) = some n ∧ n.Means d := by
  have sign : Decimal.Shortens { d with negative := d.negative && d.mantissa != 0 } d :=
    ⟨Nat.le_refl _,by simp,rfl⟩
  unfold read?
  rw [String.toList_ofList,trimNumerals d.textNumerals]
  unfold readTrimmed?
  rw [d.splitText]
  split
  · rename_i negative digits same
    exact absurd (Prod.mk.inj same).2 (notHex d (by decide) (by decide) digits)
  · rename_i negative digits same
    exact absurd (Prod.mk.inj same).2 (notHex d (by decide) (by decide) digits)
  · cases long : readLong? d.text with
    | some n =>
      obtain ⟨whole,value⟩ := readLongText long
      exact ⟨_,rfl,integerMeans whole value⟩
    | none =>
      simp only [d.readText,Option.map_some]
      exact ⟨_,rfl,(means (fraction _)).ofShort sign⟩

theorem readNormalized (d : Decimal) :
    ∃ n, read? (String.ofList d.normalize.text) = some n ∧ n.Means d := by
  obtain ⟨n,read,means⟩ := readText d.normalize
  exact ⟨n,read,means.ofShort d.normalizeShortens⟩

end Number

namespace Value
open Text

def isScalar : Value → Bool
  | null | int _ | long _ | decimal _ | bool _ | string _ => true
  | boxed _ | array _ | store => false

theorem intTextDecimal (n : Int64) : intText n.toInt = (Decimal.ofInt64 n).normalize.text := by
  have plain : (Decimal.ofInt64 n).normalize = Decimal.ofInt64 n := by
    unfold Decimal.normalize
    split
    · rename_i none
      have zero : n.toInt = 0 := Int.natAbs_eq_zero.mp none
      simp [Decimal.zero,Decimal.ofInt64,zero]
    · rfl
  have nonempty := List.length_pos_iff.mpr (natTextNonempty n.toInt.natAbs)
  have padded : padLeft 1 '0' (natText n.toInt.natAbs) = natText n.toInt.natAbs := by
    rw [padLeft,Nat.sub_eq_zero_of_le nonempty]
    rfl
  rw [plain]
  simp [Decimal.text,Decimal.magnitudeText,Decimal.ofInt64,padded,intText]

theorem numberText {v : Value} {n : Number} (number : v.number? = some n)
    (other : ∀ s, v.unboxed ≠ string s) :
    v.toText = String.ofList n.toDecimal.normalize.text ∧ v.toBool = !n.isZero := by
  unfold number? at number
  unfold toText toBool
  cases inside : v.unboxed with
  | int k =>
    simp only [inside] at number ⊢
    cases number
    have zero : k.toInt64 = 0 ↔ k = 0 := by
      rw [← Int64.toInt_inj,← Int32.toInt_inj,Int32.toInt_toInt64,Int64.toInt_zero,
        Int32.toInt_zero]
    refine ⟨by rw [Number.toDecimal,← intTextDecimal,Int32.toInt_toInt64],?_⟩
    rw [Number.isZero,bne,Bool.not_inj_iff,Bool.eq_iff_iff,beq_iff_eq,beq_iff_eq]
    exact zero.symm
  | long k =>
    simp only [inside] at number ⊢
    cases number
    exact ⟨by rw [Number.toDecimal,← intTextDecimal],rfl⟩
  | decimal d =>
    simp only [inside] at number ⊢
    cases number
    exact ⟨rfl,rfl⟩
  | bool b =>
    simp only [inside] at number ⊢
    cases number
    cases b <;> exact ⟨by decide +kernel,rfl⟩
  | string s => exact absurd inside (other s)
  | null | boxed | array | store =>
    simp only [inside] at number
    cases number

theorem textTruth {s : String} {n : Number} (written : s ≠ "") (read : Number.read? s = some n) :
    (string s).toBool = !n.isZero := by
  simp only [toBool,unboxed,if_neg written,read]

structure ConvertsAs (t v : Value) : Prop where
  text : t.toText = v.toText
  long : t.toLong = v.toLong
  int : t.toInt = v.toInt
  bool : t.toBool = v.toBool
  decimal : t.toDecimal.sameNumber v.toDecimal = true

theorem sameInside {v w : Value} (same : v.unboxed = w.unboxed) :
    v.number? = w.number? ∧ v.toText = w.toText ∧ v.toBool = w.toBool := by
  simp only [number?,toText,toBool,same,and_self]

theorem ConvertsAs.ofNumber {t v : Value} (number : t.number? = v.number?)
    (text : t.toText = v.toText) (truth : t.toBool = v.toBool) : t.ConvertsAs v := by
  have long : t.toLong = v.toLong := by simp only [toLong,number]
  have decimal : t.toDecimal = v.toDecimal := by simp only [toDecimal,number]
  exact ⟨text,long,congrArg Int64.toInt32 long,truth,by simp [decimal,Decimal.sameNumber]⟩

theorem numberConverts {v : Value} {n : Number} (number : v.number? = some n)
    (other : ∀ s, v.unboxed ≠ string s) : (string v.toText).ConvertsAs v := by
  obtain ⟨text,truth⟩ := numberText number other
  obtain ⟨m,read,means⟩ := Number.readNormalized n.toDecimal
  rw [← text] at read
  have again : (string v.toText).number? = some m := read
  have long : (string v.toText).toLong = v.toLong := by
    simp only [toLong,again,number,means.long,n.means.long]
  have written : v.toText ≠ "" := by
    intro empty
    rw [empty] at read
    cases read
  refine ⟨rfl,long,congrArg Int64.toInt32 long,?_,?_⟩
  · rw [textTruth written read,truth,means.zero,n.means.zero]
  · simp only [toDecimal,again,number]
    exact means.same

theorem textLosesNothing :
    (∀ v : Value, v.unboxed.isScalar = true → (string v.toText).ConvertsAs v) ∧
    ∀ d : Decimal, ∃ n, Number.read? (decimal d).toText = some n ∧
      n.toDecimal.sameNumber d = true := by
  refine ⟨?_,?_⟩
  · intro v scalar
    cases inside : v.unboxed with
    | null =>
      obtain ⟨number,text,truth⟩ := sameInside (w := null) inside
      rw [text]
      exact .ofNumber number.symm text.symm truth.symm
    | string s =>
      obtain ⟨number,text,truth⟩ := sameInside (w := string s) inside
      rw [text]
      exact .ofNumber number.symm text.symm truth.symm
    | int n | long n | decimal n | bool n =>
      exact numberConverts (by simp only [number?,inside]; rfl) (by simp [inside])
    | boxed | array | store =>
      rw [inside] at scalar
      cases scalar
  · intro d
    obtain ⟨n,read,means⟩ := Number.readNormalized d
    exact ⟨n,read,means.same⟩

def longestDecimal : Decimal :=
  ⟨true,0xffffffffffffffffffffffff,28,by decide,by decide⟩

theorem longestDecimalThroughText :
    (boxed (decimal longestDecimal)).unboxed.isScalar = true ∧
    (boxed (decimal longestDecimal)).toText = "-7.9228162514264337593543950335" ∧
    (string "-7.9228162514264337593543950335").ConvertsAs (boxed (decimal longestDecimal)) ∧
    ∃ n, Number.read? "-7.9228162514264337593543950335" = some n ∧
      n.toDecimal.sameNumber longestDecimal = true := by
  have text : (boxed (decimal longestDecimal)).toText = "-7.9228162514264337593543950335" := by
    decide +kernel
  obtain ⟨converts,reads⟩ := textLosesNothing
  refine ⟨rfl,text,?_,?_⟩
  · rw [← text]
    exact converts _ rfl
  · rw [← text]
    exact reads longestDecimal

end Value
end ScriptMachine
