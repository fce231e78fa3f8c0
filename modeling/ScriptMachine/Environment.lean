import ScriptMachine.Text.Blank
import ScriptMachine.Text.Fold
import ScriptMachine.Value.Basic
/-! The environment: the state that properties read and write. -/
namespace ScriptMachine

inductive TitleMatchMode where
  | startsWith
  | contains
  | exact
  | regex
  deriving DecidableEq, Repr

namespace TitleMatchMode

def text : TitleMatchMode → String
  | startsWith => "1"
  | contains => "2"
  | exact => "3"
  | regex => "RegEx"

def ofWord? (word : String) : Option TitleMatchMode :=
  if word = "1" then some startsWith
  else if word = "2" then some contains
  else if word = "3" then some exact
  else if Text.sameFolded word "regex" then some regex
  else none

def read? (s : String) : Option TitleMatchMode :=
  ofWord? (Text.trimmed s)

end TitleMatchMode

structure Environment where
  errorLevel : Value := .int 0
  workingDir : String := "/"
  titleMatchMode : TitleMatchMode := .contains
  -- whether title matching may look at hidden text
  titleMatchSlow : Bool := false
  scriptName : String := ""
  deriving DecidableEq, Repr, Inhabited

end ScriptMachine
