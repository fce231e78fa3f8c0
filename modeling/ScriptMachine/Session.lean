import ScriptMachine.Compile.Method
import ScriptMachine.Machine.Run
/-! Sessions. A session compiles and runs methods against one registry, store
and environment, which last from one run to the next. -/
namespace ScriptMachine

structure Session where
  host : Host
  lookup : Lookup := { registry := .withBuiltins }
  options : CompileOptions := {}
  limit : Nat := defaultLimit
  context : Context := {}
  -- the number of the next question to the lookup
  queries : Nat := 0

inductive ScriptError where
  | compile (e : CompileError)
  | runtime (e : RuntimeError)
  deriving DecidableEq, Repr

namespace Session

def setup (s : Session) : CompileSetup :=
  ⟨s.lookup,s.options⟩

def register (s : Session) (p : Property) : Except RegistryError Session :=
  match s.lookup.registry.register p with
  | .ok registry => .ok { s with lookup := { s.lookup with registry := registry } }
  | .error e => .error e

def resolve (s : Session) (name : String) : Option Property × Session :=
  (s.lookup.resolve s.queries name,{ s with queries := s.queries + 1 })

def compile (s : Session) (method : Method) : Except CompileError CompiledMethod × Session :=
  let (result,queries) := compileMethod s.setup method s.queries
  (result,{ s with queries := queries })

def compileAll (s : Session) (methods : List Method) : CompiledUnit × Session :=
  let (u,queries) := compileUnit s.setup methods s.queries
  (u,{ s with queries := queries })

def run (s : Session) (method : CompiledMethod) (arguments : List Value) :
    Except RuntimeError Frame × Session :=
  match (execute s.host s.limit method arguments).run s.context with
  | .ok frame context => (.ok frame,{ s with context := context })
  | .error e context => (.error e,{ s with context := context })

def execute (s : Session) (method : Method) (arguments : List Value) :
    Except ScriptError Frame × Session :=
  match s.compile method with
  | (.error e,s) => (.error (.compile e),s)
  | (.ok compiled,s) =>
    match s.run compiled arguments with
    | (.ok frame,s) => (.ok frame,s)
    | (.error e,s) => (.error (.runtime e),s)

end Session
end ScriptMachine
