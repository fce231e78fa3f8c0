/-! Digits. A run of digits is read in a base up to sixteen; a whole number is
written in base ten or sixteen without leading zeros, and can be padded on the
left to a width. -/
namespace ScriptMachine.Text

def digit? (base : Nat) (c : Char) : Option Nat :=
  let n := c.toNat
  let value :=
    if 48 ≤ n ∧ n ≤ 57 then n - 48
    else if 97 ≤ n ∧ n ≤ 102 then n - 87
    else if 65 ≤ n ∧ n ≤ 70 then n - 55
    else base
  if value < base then some value else none

def isDigit (c : Char) : Bool :=
  (digit? 10 c).isSome

def readOn (base : Nat) : Nat → List Char → Option Nat
  | acc, [] => some acc
  | acc, c :: rest => do
    let d ← digit? base c
    readOn base (acc * base + d) rest

def readNat? (base : Nat) (cs : List Char) : Option Nat :=
  if cs.isEmpty then none else readOn base 0 cs

def splitSign : List Char → Bool × List Char
  | '-' :: rest => (true, rest)
  | '+' :: rest => (false, rest)
  | cs => (false, cs)

def natText (n : Nat) : List Char :=
  Nat.toDigits 10 n

def hexText (n : Nat) : List Char :=
  Nat.toDigits 16 n

theorem readOnAppend (base acc : Nat) (cs ds : List Char) :
    readOn base acc (cs ++ ds) = (readOn base acc cs).bind fun n => readOn base n ds := by
  induction cs generalizing acc with
  | nil => rfl
  | cons c cs ih =>
    simp only [List.cons_append,readOn,bind,Option.bind_assoc]
    congr 1
    funext d
    exact ih (acc * base + d)

theorem digitChar {base d : Nat} (known : base ≤ 16) (small : d < base) :
    digit? base (Nat.digitChar d) = some d := by
  match d, small with
  | 0, small | 1, small | 2, small | 3, small | 4, small | 5, small | 6, small | 7, small
  | 8, small | 9, small | 10, small | 11, small | 12, small | 13, small | 14, small
  | 15, small => exact if_pos small
  | d + 16, small => omega

theorem readOnWritten {base : Nat} (several : 1 < base) (known : base ≤ 16) (n : Nat) :
    readOn base 0 (Nat.toDigits base n) = some n := by
  induction n using Nat.strongRecOn with
  | ind n ih =>
    by_cases small : n < base
    · rw [Nat.toDigits_of_lt_base small]
      simp [readOn,digitChar known small]
    · have less : n / base < n := Nat.div_lt_self (by omega) several
      have last : n % base < base := Nat.mod_lt n (by omega)
      rw [Nat.toDigits_of_base_le several (by omega),readOnAppend,ih (n / base) less]
      simp [readOn,digitChar known last,Nat.div_add_mod']

theorem readOnNatText (n : Nat) : readOn 10 0 (natText n) = some n :=
  readOnWritten (by decide) (by decide) n

theorem natTextNonempty (n : Nat) : natText n ≠ [] := by
  intro empty
  simp [natText] at empty

theorem readNatText (n : Nat) : readNat? 10 (natText n) = some n := by
  simp [readNat?,natTextNonempty,readOnNatText]

def intText (n : Int) : List Char :=
  if n < 0 then '-' :: natText n.natAbs else natText n.natAbs

def padLeft (width : Nat) (pad : Char) (cs : List Char) : List Char :=
  List.replicate (width - cs.length) pad ++ cs

end ScriptMachine.Text
