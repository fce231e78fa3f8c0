import ScriptMachine.Property.Basic
/-! The built-in properties. -/
namespace ScriptMachine.Property

def errorLevel : Property := ⟨"ErrorLevel",some .errorLevel,some .errorLevel⟩
def workingDir : Property := ⟨"A_WorkingDir",some .workingDir,some .workingDir⟩
def titleMatchMode : Property := ⟨"A_TitleMatchMode",some .titleMatchMode,some .titleMatchMode⟩
def titleMatchSpeed : Property :=
  ⟨"A_TitleMatchModeSpeed",some .titleMatchSpeed,some .titleMatchSpeed⟩
def scriptName : Property := ⟨"A_ScriptName",some .scriptName,none⟩
def tickCount : Property := ⟨"A_TickCount",some .tickCount,none⟩

def builtins : List Property :=
  [errorLevel,workingDir,titleMatchMode,titleMatchSpeed,scriptName,tickCount]

end ScriptMachine.Property
