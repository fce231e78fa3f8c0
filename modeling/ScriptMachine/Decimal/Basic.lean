import ScriptMachine.Text.Digits
/-! Decimal numbers with a sign, a mantissa below 2^96 and up to 28 places.
The places are part of the value: 2.5 and 2.50 are the same number but are
written differently. A zero may carry a sign. -/
namespace ScriptMachine

structure Decimal where
  negative : Bool
  mantissa : Nat
  scale : Nat
  mantissaFits : mantissa < 0x1000000000000000000000000
  scaleFits : scale ≤ 28
  deriving DecidableEq, Repr

namespace Decimal

def bound : Nat := 0x1000000000000000000000000

def maxScale : Nat := 28

def make? (negative : Bool) (mantissa scale : Nat) : Option Decimal :=
  if fits : mantissa < 0x1000000000000000000000000 ∧ scale ≤ 28 then
    some ⟨negative,mantissa,scale,fits.1,fits.2⟩
  else none

def zero : Decimal := ⟨false,0,0,by decide,by decide⟩

instance : Inhabited Decimal := ⟨zero⟩

def ofInt64 (n : Int64) : Decimal :=
  ⟨decide (n.toInt < 0),n.toInt.natAbs,0,
    by have low := Int64.le_toInt n; have high := Int64.toInt_lt n; omega,by decide⟩

def isZero (d : Decimal) : Bool :=
  d.mantissa == 0

def unscaled (d : Decimal) : Int :=
  if d.negative then -(d.mantissa : Int) else d.mantissa

def sameNumber (a b : Decimal) : Bool :=
  a.unscaled * Nat.pow 10 b.scale == b.unscaled * Nat.pow 10 a.scale

def integerPart (d : Decimal) : Int :=
  if d.negative then -((d.mantissa / Nat.pow 10 d.scale : Nat) : Int)
  else (d.mantissa / Nat.pow 10 d.scale : Nat)

def strip : Nat → Nat → Nat × Nat
  | m, 0 => (m,0)
  | m, s + 1 => if m % 10 = 0 then strip (m / 10) s else (m,s + 1)

theorem stripSmaller (m s : Nat) : (strip m s).1 ≤ m ∧ (strip m s).2 ≤ s := by
  induction s generalizing m with
  | zero => simp [strip]
  | succ s ih =>
    unfold strip
    split
    · have rest := ih (m / 10)
      have less := Nat.div_le_self m 10
      omega
    · simp

/-- The same number in as few places as it can be written. Every zero becomes the plain zero. -/
def normalize (d : Decimal) : Decimal :=
  if d.mantissa = 0 then zero
  else
    ⟨d.negative,(strip d.mantissa d.scale).1,(strip d.mantissa d.scale).2,
      Nat.lt_of_le_of_lt (stripSmaller d.mantissa d.scale).1 d.mantissaFits,
      Nat.le_trans (stripSmaller d.mantissa d.scale).2 d.scaleFits⟩

def magnitudeText (d : Decimal) : List Char :=
  let digits := Text.padLeft (d.scale + 1) '0' (Text.natText d.mantissa)
  if d.scale = 0 then digits
  else digits.take (digits.length - d.scale) ++ '.' :: digits.drop (digits.length - d.scale)

def text (d : Decimal) : List Char :=
  if d.negative then '-' :: d.magnitudeText else d.magnitudeText

end Decimal
end ScriptMachine
