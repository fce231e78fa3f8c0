import ScriptMachine.Proofs.TextConversion
/-! Whole numbers as scripts write them: blanks around, a sign, zeros in front of the
digits. In base ten every number that a decimal can hold is read exactly, whichever
reader takes it. In base sixteen every 64-bit integer is, except the lowest: the digits
have to be a 64-bit integer before the sign is put to them. -/
namespace ScriptMachine

namespace Text

inductive Sign where
  | bare
  | plus
  | minus
  deriving DecidableEq, Repr

namespace Sign

def text : Sign → List Char
  | bare => []
  | plus => ['+']
  | minus => ['-']

def isMinus : Sign → Bool
  | minus => true
  | bare | plus => false

def apply (sign : Sign) (magnitude : Nat) : Int :=
  if sign.isMinus then -(magnitude : Int) else magnitude

theorem notBlank (sign : Sign) : ∀ c ∈ sign.text, isBlank c = false := by
  cases sign with
  | bare =>
    intro c member
    cases member
  | plus | minus =>
    intro c member
    cases List.mem_singleton.mp member
    rfl

theorem split (sign : Sign) {c : Char} (rest : List Char) (digit : isDigit c = true) :
    splitSign (sign.text ++ c :: rest) = (sign.isMinus,c :: rest) := by
  cases sign with
  | bare => exact splitSignDigit rest digit
  | plus | minus => rfl

end Sign

structure Margins where
  before : List Char
  sign : Sign
  after : List Char
  blankBefore : before.all isBlank = true
  blankAfter : after.all isBlank = true

def Margins.write (around : Margins) (digits : List Char) : String :=
  String.ofList (around.before ++ (around.sign.text ++ digits) ++ around.after)

theorem visibleNotBlank {c : Char} (low : 33 ≤ c.toNat) (high : c.toNat ≤ 126) :
    isBlank c = false := by
  simp [isBlank,blankRanges]
  omega

theorem digitCases {base d : Nat} {c : Char} (digit : digit? base c = some d) :
    48 ≤ c.toNat ∧ c.toNat ≤ 57 ∨ 97 ≤ c.toNat ∧ c.toNat ≤ 102 ∨ 65 ≤ c.toNat ∧ c.toNat ≤ 70 := by
  by_cases figure : 48 ≤ c.toNat ∧ c.toNat ≤ 57
  · exact .inl figure
  · by_cases small : 97 ≤ c.toNat ∧ c.toNat ≤ 102
    · exact .inr (.inl small)
    · by_cases capital : 65 ≤ c.toNat ∧ c.toNat ≤ 70
      · exact .inr (.inr capital)
      · simp [digit?,figure,small,capital] at digit

theorem digitNotBlank {base d : Nat} {c : Char} (digit : digit? base c = some d) :
    isBlank c = false := by
  have range := digitCases digit
  exact visibleNotBlank (by omega) (by omega)

theorem digitLower (base : Nat) (c : Char) : digit? base c.toLower = digit? base c := by
  unfold digit?
  rw [lowerNat]
  by_cases upper : 65 ≤ c.toNat ∧ c.toNat ≤ 90
  · grind
  · simp only [if_neg upper]

theorem readOnLower (base acc : Nat) (cs : List Char) :
    readOn base acc (cs.map Char.toLower) = readOn base acc cs := by
  induction cs generalizing acc with
  | nil => rfl
  | cons c rest ih => simp only [List.map_cons,readOn,digitLower,ih]

theorem readNatZeros {base : Nat} (some : 0 < base) (zeros : Nat) {digits : List Char}
    (written : digits ≠ []) :
    readNat? base (List.replicate zeros '0' ++ digits) = readOn base 0 digits := by
  simp [readNat?,written,readOnZeros some]

theorem readNatStarts {base n : Nat} {cs : List Char} (read : readNat? base cs = some n) :
    ∃ c rest, cs = c :: rest ∧ readOn base 0 cs = some n := by
  cases cs with
  | nil => cases read
  | cons c rest => exact ⟨c,rest,rfl,read⟩

theorem readNatSolid {base n : Nat} {cs : List Char} (read : readNat? base cs = some n) :
    ∀ c ∈ cs, isBlank c = false := by
  intro c member
  obtain ⟨_,_,_,on⟩ := readNatStarts read
  obtain ⟨d,digit⟩ := readOnEach on c member
  exact digitNotBlank digit

theorem readHexDigits (zeros : Nat) {n : Nat} {digits : List Char}
    (letters : digits.map Char.toLower = hexText n) :
    readNat? 16 (List.replicate zeros '0' ++ digits) = some n := by
  have written : digits ≠ [] := by
    rintro rfl
    simp [hexText] at letters
  rw [readNatZeros (by decide) zeros written,← readOnLower,letters]
  exact readOnWritten (by decide) (by decide) n

theorem readNatUnderscore (base : Nat) {cs : List Char} (inside : '_' ∈ cs) :
    readNat? base cs = none := by
  unfold readNat?
  split
  · rfl
  · cases read : readOn base 0 cs with
    | none => rfl
    | some n =>
      obtain ⟨d,digit⟩ := readOnEach read '_' inside
      simp [digit?] at digit

theorem splitSignUnderscore {cs : List Char} (inside : '_' ∈ cs) : '_' ∈ (splitSign cs).2 := by
  unfold splitSign
  split <;> simpa using inside

end Text

namespace Decimal
open Text

theorem readDigitsUnderscore {cs : List Char} (inside : '_' ∈ cs) (behind : Bool) (m s : Nat) :
    readDigits behind m s cs = none := by
  induction cs generalizing behind m s with
  | nil => cases inside
  | cons c rest ih =>
    rcases List.mem_cons.mp inside with rfl | later
    · rfl
    · have digits : rest.all isDigit = false := by
        simpa using ⟨'_',later,rfl⟩
      unfold readDigits
      simp only [ih later,digits]
      cases digit? 10 c <;> simp

theorem readPlainUnderscore {cs : List Char} (inside : '_' ∈ cs) : readPlain? cs = none := by
  simp [readPlain?,readDigitsUnderscore (splitSignUnderscore inside)]

theorem readExponentUnderscore {cs : List Char} (inside : '_' ∈ cs) : readExponent? cs = none := by
  unfold readExponent?
  split
  · rename_i rest
    have later : '_' ∈ rest := by simpa using inside
    simp [readNatUnderscore 10 later]
  · simp [readNatUnderscore 10 inside]

theorem readScientificUnderscore {cs : List Char} (inside : '_' ∈ cs) :
    readScientific? cs = none := by
  have parts := @List.takeWhile_append_dropWhile _ (fun c => !isExponentMark c) cs
  have first := List.head?_dropWhile_not (fun c => !isExponentMark c) cs
  rw [← parts,List.mem_append] at inside
  unfold readScientific?
  split
  · rfl
  · rename_i mark exponent found
    rw [found] at inside first
    rcases inside with base | later
    · simp [readPlainUnderscore base]
    · rcases List.mem_cons.mp later with rfl | behind
      · cases first
      · cases readPlain? (cs.takeWhile fun c => !isExponentMark c) with
        | none => rfl
        | some base =>
          simp only [bind,Option.bind_some]
          split
          · rename_i rest
            have digits : '_' ∈ rest := by simpa using behind
            simp [readExponentUnderscore digits]
          · simp [readExponentUnderscore behind]

theorem readWhole (sign : Sign) {digits : List Char} {k : Nat}
    (read : readNat? 10 digits = some k) (fits : k < bound) :
    read? (sign.text ++ digits) = some ⟨sign.isMinus && k != 0,k,0,fits,by decide⟩ := by
  obtain ⟨c,rest,rfl,on⟩ := readNatStarts read
  have digit := readOnDigits on c List.mem_cons_self
  have front := readDigitsFront (s := 0) [] on fits
  rw [List.append_nil] at front
  have plain : readPlain? (sign.text ++ c :: rest) =
      some ⟨sign.isMinus && k != 0,k,0,fits,by decide⟩ := by
    unfold readPlain?
    simp only [sign.split rest digit,front]
    simp [digit,readDigits,make?,show k < 0x1000000000000000000000000 from fits]
  simp [read?,plain]

end Decimal

namespace Number
open Text

theorem readWritten (around : Margins) {digits : List Char}
    (solid : ∀ c ∈ digits, isBlank c = false) :
    read? (around.write digits) = readTrimmed? (around.sign.text ++ digits) := by
  have signed : ∀ c ∈ around.sign.text ++ digits, isBlank c = false := by
    intro c member
    rcases List.mem_append.mp member with sign | digit
    · exact around.sign.notBlank c sign
    · exact solid c digit
  rw [read?,Margins.write,String.toList_ofList,
    trimAround (List.all_eq_true.mp around.blankBefore) signed
      (List.all_eq_true.mp around.blankAfter)]

theorem readTrimmedHex (sign : Sign) {mark : Char} (marked : mark = 'x' ∨ mark = 'X')
    (digits : List Char) :
    readTrimmed? (sign.text ++ '0' :: mark :: digits) =
      (readHex? sign.isMinus digits).map integer := by
  rcases marked with rfl | rfl <;> cases sign <;> rfl

theorem readTrimmedPlain {cs : List Char}
    (plain : ∀ mark rest, (splitSign cs).2 = '0' :: mark :: rest → mark ≠ 'x' ∧ mark ≠ 'X') :
    readTrimmed? cs =
      match readLong? cs with
      | some n => some (integer n)
      | none => (Decimal.read? cs).map fraction := by
  unfold readTrimmed?
  split
  · rename_i negative digits same
    exact absurd rfl (plain 'x' digits (by rw [same])).1
  · rename_i negative digits same
    exact absurd rfl (plain 'X' digits (by rw [same])).2
  · rfl

theorem readTrimmedWhole (sign : Sign) {digits : List Char} {k : Nat}
    (read : readNat? 10 digits = some k) (fits : k < Decimal.bound) :
    ∃ n, readTrimmed? (sign.text ++ digits) = some n ∧ n.toDecimal.scale = 0 ∧
      n.toDecimal.unscaled = sign.apply k := by
  obtain ⟨c,rest,rfl,on⟩ := readNatStarts read
  have all := readOnDigits on
  have split := sign.split rest (all c List.mem_cons_self)
  have long : readLong? (sign.text ++ c :: rest) =
      if Int64.minValue.toInt ≤ sign.apply k ∧ sign.apply k ≤ Int64.maxValue.toInt then
        some (Int64.ofInt (sign.apply k)) else none := by
    simp only [readLong?,split,read,bind,Option.bind_some]
    rfl
  have plain : ∀ mark more, (splitSign (sign.text ++ c :: rest)).2 = '0' :: mark :: more →
      mark ≠ 'x' ∧ mark ≠ 'X' := by
    intro mark more same
    rw [split] at same
    obtain ⟨rfl,rfl⟩ := List.cons.inj same
    have digit := all mark (by simp)
    constructor
    · rintro rfl
      cases digit
    · rintro rfl
      cases digit
  rw [readTrimmedPlain plain,long,Decimal.readWhole sign read fits]
  by_cases inside : Int64.minValue.toInt ≤ sign.apply k ∧ sign.apply k ≤ Int64.maxValue.toInt
  · rw [if_pos inside]
    refine ⟨_,rfl,rfl,?_⟩
    rw [Int64.toInt_minValue,Int64.toInt_maxValue] at inside
    rw [toDecimal,unscaledOfInt64]
    exact Int64.toInt_ofInt_of_le inside.1 (Int.lt_of_le_sub_one inside.2)
  · rw [if_neg inside]
    refine ⟨_,rfl,rfl,?_⟩
    simp only [toDecimal,Decimal.unscaled,Sign.apply]
    by_cases zero : k = 0
    · simp [zero]
    · simp [zero]

theorem readTrimmedUnderscore {cs : List Char} (inside : '_' ∈ cs) : readTrimmed? cs = none := by
  have digits := splitSignUnderscore inside
  have long : readLong? cs = none := by simp [readLong?,readNatUnderscore 10 digits]
  have decimal : Decimal.read? cs = none := by
    simp [Decimal.read?,Decimal.readPlainUnderscore inside,Decimal.readScientificUnderscore inside]
  have hex : ∀ negative rest, '_' ∈ rest → readHex? negative rest = none := by
    intro negative rest member
    simp [readHex?,readNatUnderscore 16 member]
  unfold readTrimmed?
  split
  · rename_i negative rest same
    rw [same] at digits
    simp [hex negative rest (by simpa using digits)]
  · rename_i negative rest same
    rw [same] at digits
    simp [hex negative rest (by simpa using digits)]
  · simp [long,decimal]

theorem readUnderscore {text : String} (inside : '_' ∈ text.toList) : read? text = none := by
  have kept : ∀ cs : List Char, '_' ∈ cs → '_' ∈ cs.dropWhile isBlank := by
    intro cs member
    rw [← @List.takeWhile_append_dropWhile _ isBlank cs,List.mem_append] at member
    rcases member with blank | rest
    · cases List.all_eq_true.mp List.all_takeWhile '_' blank
    · exact rest
  refine readTrimmedUnderscore ?_
  rw [trim,List.mem_reverse]
  refine kept _ ?_
  rw [List.mem_reverse]
  exact kept _ inside

end Number

structure Spelling (z : Int) where
  around : Text.Margins
  zeros : Nat
  signed : around.sign.apply z.natAbs = z

namespace Spelling
open Text
variable {z : Int}

def padded (spelling : Spelling z) (digits : List Char) : List Char :=
  List.replicate spelling.zeros '0' ++ digits

def digits (spelling : Spelling z) : List Char :=
  spelling.padded (natText z.natAbs)

def text (spelling : Spelling z) : String :=
  spelling.around.write spelling.digits

theorem readDigits (spelling : Spelling z) : readNat? 10 spelling.digits = some z.natAbs := by
  rw [digits,padded,readNatZeros (by decide) _ (natTextNonempty _),readOnNatText]

theorem read (spelling : Spelling z) (fits : z.natAbs < Decimal.bound) :
    ∃ n, Number.read? spelling.text = some n ∧ n.toDecimal.scale = 0 ∧
      n.toDecimal.unscaled = z := by
  obtain ⟨n,trimmed,scale,value⟩ :=
    Number.readTrimmedWhole spelling.around.sign spelling.readDigits fits
  refine ⟨n,?_,scale,value.trans spelling.signed⟩
  rw [text,Number.readWritten spelling.around (readNatSolid spelling.readDigits),trimmed]

end Spelling

theorem Number.isZeroWhole {n : Number} {z : Int} (value : n.toDecimal.unscaled = z) :
    n.isZero = true ↔ z = 0 := by
  rw [n.means.zero,← value,Decimal.isZero,Decimal.unscaled,beq_iff_eq]
  split <;> omega

theorem Value.truthOfText {v : Value} {s : String} {n : Number} (holds : v.unboxed = .string s)
    (read : Number.read? s = some n) : v.toBool = !n.isZero := by
  have written : s ≠ "" := by
    rintro rfl
    cases read
  rw [(sameInside (w := .string s) holds).2.2,textTruth written read]

theorem wholeNumbersReadExactly {z : Int} (spelling : Spelling z)
    (fits : z.natAbs < Decimal.bound) :
    (∃ d, (Number.read? spelling.text).map Number.toDecimal = some d ∧
      d.unscaled = z * Nat.pow 10 d.scale) ∧
    (∀ v : Value, v.unboxed = .string spelling.text → (v.toBool = true ↔ z ≠ 0)) ∧
    ∀ front back, spelling.digits = front ++ back →
      Number.read? (spelling.around.write (front ++ '_' :: back)) = none := by
  obtain ⟨n,read,scale,value⟩ := spelling.read fits
  refine ⟨⟨n.toDecimal,by rw [read]; rfl,?_⟩,?_,?_⟩
  · rw [scale,value]
    exact (Int.mul_one z).symm
  · intro v holds
    have zero := Number.isZeroWhole value
    rw [Value.truthOfText holds read]
    cases decided : n.isZero <;> simp_all
  · intro front back _
    refine Number.readUnderscore ?_
    simp [Text.Margins.write]

def highestWhole : Spelling 79228162514264337593543950335 :=
  ⟨⟨['\t','\u3000'],.plus,[' '],rfl,rfl⟩,2,by decide⟩

theorem highestWholeReadExactly :
    (79228162514264337593543950335 : Int).natAbs < Decimal.bound ∧
    highestWhole.text = "\t\u3000+0079228162514264337593543950335 " ∧
    (∃ d, (Number.read? highestWhole.text).map Number.toDecimal = some d ∧
      d.unscaled = 79228162514264337593543950335 * Nat.pow 10 d.scale) ∧
    (Value.boxed (.string highestWhole.text)).toBool = true ∧
    Number.read? "\t\u3000+007_9228162514264337593543950335 " = none := by
  have fits : (79228162514264337593543950335 : Int).natAbs < Decimal.bound := by decide
  obtain ⟨exact,truth,separated⟩ := wholeNumbersReadExactly highestWhole fits
  have split : highestWhole.digits = "007".toList ++ "9228162514264337593543950335".toList := by
    decide +kernel
  have written : highestWhole.around.write
      ("007".toList ++ '_' :: "9228162514264337593543950335".toList) =
      "\t\u3000+007_9228162514264337593543950335 " := by decide +kernel
  refine ⟨fits,by decide +kernel,exact,(truth _ rfl).mpr (by decide),?_⟩
  rw [← written]
  exact separated _ _ split

structure HexSpelling (z : Int) extends Spelling z where
  mark : Char
  letters : List Char
  marked : mark = 'x' ∨ mark = 'X'
  lettered : letters.map Char.toLower = Text.hexText z.natAbs

namespace HexSpelling
open Text
variable {z : Int}

def text (spelling : HexSpelling z) : String :=
  spelling.around.write ('0' :: spelling.mark :: spelling.padded spelling.letters)

theorem readLetters (spelling : HexSpelling z) :
    readNat? 16 (spelling.padded spelling.letters) = some z.natAbs :=
  readHexDigits spelling.zeros spelling.lettered

/-- Behind a minus sign the digits may not stand for more than the highest integer either. -/
theorem read (spelling : HexSpelling z) :
    Number.read? spelling.text =
      if z.natAbs < 0x8000000000000000 then some (.integer (Int64.ofInt z)) else none := by
  have digits := spelling.readLetters
  have solid : ∀ c ∈ '0' :: spelling.mark :: spelling.padded spelling.letters,
      isBlank c = false := by
    have mark : isBlank spelling.mark = false := by
      rcases spelling.marked with same | same <;> rw [same] <;> rfl
    simp only [List.mem_cons,forall_eq_or_imp]
    exact ⟨rfl,mark,readNatSolid digits⟩
  have value : (if spelling.around.sign.isMinus then -(z.natAbs : Int) else z.natAbs) = z :=
    spelling.signed
  rw [text,Number.readWritten _ solid,Number.readTrimmedHex _ spelling.marked]
  simp only [Number.readHex?,digits,bind,Option.bind_some,value]
  split <;> rfl

end HexSpelling

theorem longMagnitude (n : Int64) :
    n.toInt.natAbs < 0x8000000000000000 ↔ n ≠ Int64.minValue := by
  have low := Int64.le_toInt n
  have high := Int64.toInt_lt n
  rw [ne_eq,← Int64.toInt_inj,Int64.toInt_minValue]
  omega

/-- The sign is put to digits that have to be an integer by themselves, and the
magnitude of the lowest integer is none. -/
theorem hexReadsAllButLowest (n : Int64) (spelling : HexSpelling n.toInt) :
    (n ≠ Int64.minValue →
      (Number.read? spelling.text).map Number.toDecimal = some (.ofInt64 n) ∧
      ∀ v : Value, v.unboxed = .string spelling.text → v.toLong = n) ∧
    (n = Int64.minValue →
      Number.read? spelling.text = none ∧
      ∀ v : Value, v.unboxed = .string spelling.text → v.toLong = 0) := by
  have read := spelling.read
  have long : ∀ v : Value, v.unboxed = .string spelling.text →
      v.toLong = ((Number.read? spelling.text).map Number.toLong).getD 0 := by
    intro v holds
    simp only [Value.toLong,Value.number?,holds]
    cases Number.read? spelling.text <;> rfl
  constructor
  · intro higher
    rw [if_pos ((longMagnitude n).mpr higher),Int64.ofInt_toInt] at read
    refine ⟨by rw [read]; rfl,?_⟩
    intro v holds
    rw [long v holds,read]
    rfl
  · intro lowest
    rw [if_neg (fun small => (longMagnitude n).mp small lowest)] at read
    refine ⟨read,?_⟩
    intro v holds
    rw [long v holds,read]
    rfl

def nextLowest : HexSpelling (Int64.minValue + 1).toInt :=
  ⟨⟨⟨['\u00a0'],.minus,['\n'],rfl,rfl⟩,3,by decide⟩,'X',"7fFFffffffFFfffF".toList,
    .inr rfl,by decide +kernel⟩

theorem nextLowestReadsBack :
    Int64.minValue + 1 ≠ Int64.minValue ∧ nextLowest.text = "\u00a0-0X0007fFFffffffFFfffF\n" ∧
    (Number.read? nextLowest.text).map Number.toDecimal = some (.ofInt64 (Int64.minValue + 1)) ∧
    (Value.boxed (.string nextLowest.text)).toLong = Int64.minValue + 1 := by
  have higher : Int64.minValue + 1 ≠ Int64.minValue := by decide
  obtain ⟨decimal,long⟩ := (hexReadsAllButLowest _ nextLowest).1 higher
  exact ⟨higher,by decide +kernel,decimal,long _ rfl⟩

-- in base ten the same integer is read, since there the sign is read along with the digits
theorem lowestInHexIsNoNumber :
    ∃ spelling : HexSpelling Int64.minValue.toInt, spelling.text = "-0x8000000000000000" ∧
      Number.read? spelling.text = none ∧ (Value.string spelling.text).toLong = 0 ∧
      Number.read? "-9223372036854775808" = some (.integer Int64.minValue) := by
  refine ⟨⟨⟨⟨[],.minus,[],rfl,rfl⟩,0,by decide⟩,'x',"8000000000000000".toList,
    .inl rfl,by decide +kernel⟩,?_⟩
  decide +kernel

end ScriptMachine
