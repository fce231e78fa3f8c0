import ScriptMachine.Conversion
import ScriptMachine.Property.Id
import ScriptMachine.Property.Native
import ScriptMachine.Text.Quoted
/-! Properties: a name with a getter, a setter or both. An accessor is one of
the built-in ones or an instance of a routine of the host. Two instances of one
routine are two accessors, so that a property made anew is told apart from the
one before. -/
namespace ScriptMachine

inductive GetterRef where
  | errorLevel
  | workingDir
  | titleMatchMode
  | titleMatchSpeed
  | scriptName
  | tickCount
  | host (routine serial : Nat)
  deriving DecidableEq, Repr

inductive SetterRef where
  | errorLevel
  | workingDir
  | titleMatchMode
  | titleMatchSpeed
  -- the owner is the name of the property that the instance was made for
  | host (routine serial : Nat) (owner : String)
  deriving DecidableEq, Repr

def speedText (slow : Bool) : String :=
  if slow then "Slow" else "Fast"

def speedOfWord? (word : String) : Option Bool :=
  if Text.sameFolded word "slow" then some true
  else if Text.sameFolded word "fast" then some false
  else none

def GetterRef.read (host : Host) : GetterRef → Getter
  | errorLevel, env, heap => ⟨env.errorLevel,heap⟩
  | workingDir, env, heap => ⟨.string env.workingDir,heap⟩
  | titleMatchMode, env, heap => ⟨.string env.titleMatchMode.text,heap⟩
  | titleMatchSpeed, env, heap => ⟨.string (speedText env.titleMatchSlow),heap⟩
  | scriptName, env, heap => ⟨.string env.scriptName,heap⟩
  | tickCount, _, heap => ⟨.long host.ticks,heap⟩
  | GetterRef.host routine _, env, heap => host.getter routine env heap

namespace SetterRef

def modifyEnvironment (f : Environment → Environment) : EStateM NativeError Surroundings Unit :=
  modify fun s => { s with environment := f s.environment }

def writeWorkingDir (host : Host) (v : Value) : EStateM NativeError Surroundings Unit :=
  let path := v.toText
  if host.isDirectory path then modifyEnvironment fun env => { env with workingDir := path }
  else throw (.invalidValue "A_WorkingDir" ("'" ++ path ++ "' is not a directory"))

/-- A speed is taken as well as a mode, and first. -/
def writeTitleMatchMode (v : Value) : EStateM NativeError Surroundings Unit :=
  match speedOfWord? (Text.trimmed v.toText), TitleMatchMode.read? v.toText with
  | some slow, _ => modifyEnvironment fun env => { env with titleMatchSlow := slow }
  | none, some mode => modifyEnvironment fun env => { env with titleMatchMode := mode }
  | none, none => throw (.invalidValue "A_TitleMatchMode" ("unknown mode '" ++ v.toText ++ "'"))

def writeTitleMatchSpeed (v : Value) : EStateM NativeError Surroundings Unit :=
  match speedOfWord? (Text.trimmed v.toText) with
  | some slow => modifyEnvironment fun env => { env with titleMatchSlow := slow }
  | none =>
    throw (.invalidValue "A_TitleMatchModeSpeed"
      ("expected Slow or Fast, got '" ++ v.toText ++ "'"))

def write (host : Host) : SetterRef → Value → EStateM NativeError Surroundings Unit
  | errorLevel, v => modifyEnvironment fun env => { env with errorLevel := v }
  | workingDir, v => writeWorkingDir host v
  | titleMatchMode, v => writeTitleMatchMode v
  | titleMatchSpeed, v => writeTitleMatchSpeed v
  | SetterRef.host routine _ owner, v => host.setter routine owner v

end SetterRef

structure Property where
  name : String
  getter : Option GetterRef := none
  setter : Option SetterRef := none
  deriving DecidableEq, Repr

namespace Property

def id (p : Property) : PropertyId :=
  .ofName p.name

def hasAccessor (p : Property) : Bool :=
  p.getter.isSome || p.setter.isSome

/-- Whether two properties are served by the same accessors. Names do not
count, and a property without accessors shares none. -/
def sharesAccessors (p q : Property) : Bool :=
  p.hasAccessor && p.getter == q.getter && p.setter == q.setter

def read (host : Host) (p : Property) (env : Environment) (heap : Heap) : Option Reading :=
  p.getter.map fun getter =>
    let reading := getter.read host env heap
    { reading with value := reading.value.asObject }

def write (host : Host) (p : Property) (v : Value) : EStateM NativeError Surroundings Unit :=
  match p.setter with
  | some setter => setter.write host v
  | none => pure ()

def describe (p : Property) : String :=
  "PropertyDescriptor \x7b name: " ++ Text.quote p.name ++ ", id: " ++ p.id.describe
    ++ ", getter: " ++ toString p.getter.isSome
    ++ ", setter: " ++ toString p.setter.isSome ++ " \x7d"

end Property
end ScriptMachine
