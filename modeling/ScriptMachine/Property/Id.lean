import ScriptMachine.Text.Digits
import ScriptMachine.Text.Fold
import ScriptMachine.Text.Xxh64
/-! Property identifiers. A property is filed under a 64-bit hash of its name,
in which the case of ASCII letters does not count. -/
namespace ScriptMachine

structure PropertyId where
  word : UInt64
  deriving DecidableEq, Repr

namespace PropertyId

def mark : UInt64 := 0x2fac10b63a6cc57c

def ofName (name : String) : PropertyId :=
  ⟨mark ^^^ Text.Xxh64.hash ((Text.fold name).toList.flatMap String.utf8EncodeChar)⟩

def text (id : PropertyId) : String :=
  "0x" ++ String.ofList (Text.padLeft 16 '0' (Text.hexText id.word.toNat))

def describe (id : PropertyId) : String :=
  "TypeHash(" ++ id.text ++ ")"

end PropertyId
end ScriptMachine
