import ScriptMachine.Decimal.Basic
/-! Reading decimals from text. Plain text is an optional sign and digits with
at most one point. Digits that no longer fit are an error in front of the point;
behind it the first of them rounds what has been read. Scientific text adds an
exponent, which moves the point. -/
namespace ScriptMachine.Decimal
open Text (digit? isDigit readNat? splitSign)

/-- Rounds a mantissa at its first digit that does not fit, a half upward. A
mantissa that grows out of its 96 bits gives up its last place. -/
def roundAt (mantissa scale digit : Nat) : Option (Nat × Nat) :=
  if digit < 5 then some (mantissa,scale)
  else if mantissa + 1 < bound then some (mantissa + 1,scale)
  else if scale = 0 then none
  else some ((mantissa + 1 + 4) / 10,scale - 1)

def readDigits : Bool → Nat → Nat → List Char → Option (Nat × Nat)
  | _, m, s, [] => some (m,s)
  | behind, m, s, c :: rest =>
    if c = '.' then
      if behind then none else readDigits true m s rest
    else do
      let d ← digit? 10 c
      if behind then
        if s = maxScale ∨ bound ≤ m * 10 + d then
          if rest.all isDigit then roundAt m s d else none
        else readDigits true (m * 10 + d) (s + 1) rest
      else if bound ≤ m * 10 + d then none
      else readDigits false (m * 10 + d) s rest

/-- Reads text without an exponent. A zero loses its sign and keeps its places. -/
def readPlain? (cs : List Char) : Option Decimal := do
  let (negative,rest) := splitSign cs
  if rest.any isDigit then
    let (m,s) ← readDigits false 0 0 rest
    make? (negative && m != 0) m s
  else none

def dropDigits (m n : Nat) : Nat :=
  if n = 0 then m else (m / Nat.pow 10 (n - 1) + 5) / 10

def shiftDown? (d : Decimal) (places : Nat) : Option Decimal :=
  if maxScale < places then none
  else if d.scale + places ≤ maxScale then make? d.negative d.mantissa (d.scale + places)
  else make? d.negative (dropDigits d.mantissa (d.scale + places - maxScale)) maxScale

def shiftUp? (d : Decimal) (places : Nat) : Option Decimal :=
  if places ≤ d.scale then make? d.negative d.mantissa (d.scale - places)
  else if maxScale < places then none
  else make? d.negative (d.mantissa * Nat.pow 10 (places - d.scale)) 0

/-- An exponent without its minus sign fits in 32 bits. -/
def readExponent? (cs : List Char) : Option Nat := do
  let digits := match cs with
    | '+' :: rest => rest
    | cs => cs
  let n ← readNat? 10 digits
  if n < 0x100000000 then some n else none

def isExponentMark (c : Char) : Bool :=
  c == 'e' || c == 'E'

def readScientific? (cs : List Char) : Option Decimal :=
  match cs.dropWhile (fun c => !isExponentMark c) with
  | [] => none
  | _ :: exponent => do
    let base ← readPlain? (cs.takeWhile fun c => !isExponentMark c)
    match exponent with
    | '-' :: rest => base.shiftDown? (← readExponent? rest)
    | _ => base.shiftUp? (← readExponent? exponent)

def read? (cs : List Char) : Option Decimal :=
  readPlain? cs <|> readScientific? cs

end ScriptMachine.Decimal
