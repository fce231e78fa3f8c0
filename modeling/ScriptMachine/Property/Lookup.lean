import ScriptMachine.Property.Registry
/-! How a script finds a property by name. A resolver of the host is asked before
the registry. Each question carries a number of its own, so that a resolver may
answer every time with accessors made for that question. -/
namespace ScriptMachine

/-- Answers a question by its number, the name asked for and the registry.
Without an answer the registry decides. -/
abbrev Resolver := Nat → String → Registry → Option Property

structure Lookup where
  registry : Registry
  resolver : Option Resolver := none

namespace Lookup

def resolve (lookup : Lookup) (query : Nat) (name : String) : Option Property :=
  match lookup.resolver.bind fun resolver => resolver query name lookup.registry with
  | some p => some p
  | none => lookup.registry.find? name

/-- What the resolver gives counts even if it cannot be read; the registry is not asked then. -/
def resolveGetter (lookup : Lookup) (query : Nat) (name : String) : Option Property :=
  (lookup.resolve query name).filter (·.getter.isSome)

def resolveSetter (lookup : Lookup) (query : Nat) (name : String) : Option Property :=
  (lookup.resolve query name).filter (·.setter.isSome)

end Lookup
end ScriptMachine
