/-! Blank characters are those with the Unicode property White_Space. Text is
trimmed of them at both ends before it is read as a number, a type name or a
mode. -/
namespace ScriptMachine.Text

def blankRanges : List (Nat × Nat) :=
  [(0x9,0xd),(0x20,0x20),(0x85,0x85),(0xa0,0xa0),(0x1680,0x1680),(0x2000,0x200a),
    (0x2028,0x2029),(0x202f,0x202f),(0x205f,0x205f),(0x3000,0x3000)]

def isBlank (c : Char) : Bool :=
  blankRanges.any fun r => r.1 ≤ c.toNat && c.toNat ≤ r.2

def trim (cs : List Char) : List Char :=
  ((cs.dropWhile isBlank).reverse.dropWhile isBlank).reverse

def trimmed (s : String) : String :=
  String.ofList (trim s.toList)

end ScriptMachine.Text
