import ScriptMachine.Property.Builtin
/-! The registry of properties. A name is taken by the first property registered
under it, up to the case of ASCII letters. -/
namespace ScriptMachine

inductive RegistryError where
  | noAccessors (name : String)
  | duplicate (name : String)
  deriving DecidableEq, Repr

def RegistryError.message : RegistryError → String
  | noAccessors name => "property '" ++ name ++ "' has neither a getter nor a setter"
  | duplicate name => "property '" ++ name ++ "' is already registered"

structure Registry where
  properties : List Property := []
  deriving DecidableEq, Repr

namespace Registry

def find? (registry : Registry) (name : String) : Option Property :=
  registry.properties.find? fun p => p.id == PropertyId.ofName name

def contains (registry : Registry) (name : String) : Bool :=
  (registry.find? name).isSome

def size (registry : Registry) : Nat :=
  registry.properties.length

def register (registry : Registry) (p : Property) : Except RegistryError Registry :=
  if !p.hasAccessor then .error (.noAccessors p.name)
  else if registry.contains p.name then .error (.duplicate p.name)
  else .ok ⟨registry.properties ++ [p]⟩

def registerAll (registry : Registry) (properties : List Property) : Registry :=
  properties.foldl (fun r p => match r.register p with
    | .ok grown => grown
    | .error _ => r) registry

def withBuiltins : Registry :=
  registerAll {} Property.builtins

def names (registry : Registry) : List String :=
  (registry.properties.map (·.name)).mergeSort (fun a b => decide (a ≤ b))

end Registry

end ScriptMachine
