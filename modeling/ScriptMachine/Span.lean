/-! Places in the text of a script. -/
namespace ScriptMachine

structure Span where
  line : Nat
  column : Nat
  length : Nat := 0
  deriving DecidableEq, Repr, Inhabited

def Span.start : Span := ⟨1,1,0⟩

def Span.text (span : Span) : String :=
  toString span.line ++ ":" ++ toString span.column

end ScriptMachine
