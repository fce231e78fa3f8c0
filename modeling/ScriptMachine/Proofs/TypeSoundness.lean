import ScriptMachine.Proofs.Simulation
import ScriptMachine.Session
/-! Type soundness. Code that the compiler accepts never stops at a check of the
machine: its runs finish, or run out of stack, or stop where a property refuses a
value. However they end, the store holds objects only, which is all that the next
run asks of it, so that a session stays sound through any calls. -/
namespace ScriptMachine

def Accepted (options : CompileOptions) (compiled : CompiledMethod) : Prop :=
  ∃ lookup method queries, (compileMethod ⟨lookup,options⟩ method queries).1 = .ok compiled

inductive EndsSoundly (compiled : CompiledMethod) (limit : Nat) :
    EStateM.Result RuntimeError Context Frame → Prop where
  | finished (frame after) (balanced : frame.stack = [])
      (slots : frame.locals.length = compiled.locals.length)
      (fits : ∀ (slot : Nat) (entry : Local), compiled.locals[slot]? = some entry →
        ∃ v, frame.locals[slot]? = some v ∧ v.fits entry.type = true)
      (objects : after.store.HoldsObjects) : EndsSoundly compiled limit (.ok frame after)
  | overflow (offset after) (objects : after.store.HoldsObjects) :
      EndsSoundly compiled limit (.error (.stackOverflow offset limit) after)
  | refused (e after) (objects : after.store.HoldsObjects) :
      EndsSoundly compiled limit (.error (.native e) after)

theorem executeObjects (host : Host) (limit : Nat) (compiled : CompiledMethod)
    (arguments : List Value) {context : Context} (objects : context.store.HoldsObjects) :
    (lastState ((execute host limit compiled arguments).run context)).store.HoldsObjects := by
  rw [compiled.executeContext]
  exact compiled.pointObjects host limit arguments objects _

theorem acceptedEndsSoundly {host : Host} {options : CompileOptions}
    (sane : Sane True host options) {compiled : CompiledMethod}
    (accepted : Accepted options compiled) (limit : Nat) (arguments : List Value)
    {context : Context} (objects : context.store.HoldsObjects) :
    EndsSoundly compiled limit ((execute host limit compiled arguments).run context) := by
  obtain ⟨lookup,method,queries,ok⟩ := accepted
  have kept := executeObjects host limit compiled arguments objects
  rw [compiled.executeRun] at kept ⊢
  cases methodRefines sane ok limit arguments fun _ => objects with
  | done u s m ran evaluated holds =>
    obtain ⟨stack,same,tables⟩ := holds
    rw [ran] at kept ⊢
    refine .finished _ _ stack tables.lengths ?_ kept
    intro slot entry declared
    obtain ⟨v,held,typed⟩ := tables.held declared
    exact ⟨v,held,(typed.inhabits trivial).1⟩
  | failed e s m ran evaluated same =>
    rw [ran] at kept ⊢
    exact .refused e _ kept
  | overflow place m ran short =>
    rw [ran] at kept ⊢
    exact .overflow place _ kept
  | mismatch expected found place m ran loose => exact absurd trivial loose

inductive Call where
  | register (p : Property)
  | resolve (name : String)
  | compile (method : Method)
  | compileAll (methods : List Method)
  | run (compiled : CompiledMethod) (arguments : List Value)
  | execute (method : Method) (arguments : List Value)

namespace Session

def after (s : Session) : Call → Session
  | .register p =>
    match s.register p with
    | .ok grown => grown
    | .error _ => s
  | .resolve name => (s.resolve name).2
  | .compile method => (s.compile method).2
  | .compileAll methods => (s.compileAll methods).2
  | .run compiled arguments => (s.run compiled arguments).2
  | .execute method arguments => (s.execute method arguments).2

structure Follows (start s : Session) : Prop where
  host : s.host = start.host
  options : s.options = start.options
  limit : s.limit = start.limit
  objects : s.context.store.HoldsObjects

variable {start s : Session}

theorem Follows.compile (follows : start.Follows s) (method : Method) :
    start.Follows (s.compile method).2 :=
  ⟨follows.host,follows.options,follows.limit,follows.objects⟩

theorem Follows.register (follows : start.Follows s) {p : Property} {grown : Session}
    (registered : s.register p = .ok grown) : start.Follows grown := by
  unfold Session.register at registered
  split at registered
  · cases registered
    exact ⟨follows.host,follows.options,follows.limit,follows.objects⟩
  · cases registered

theorem Follows.run (follows : start.Follows s) (compiled : CompiledMethod)
    (arguments : List Value) : start.Follows (s.run compiled arguments).2 := by
  have kept := executeObjects s.host s.limit compiled arguments follows.objects
  unfold Session.run
  split
  · rename_i frame context ran
    rw [ran] at kept
    exact ⟨follows.host,follows.options,follows.limit,kept⟩
  · rename_i e context ran
    rw [ran] at kept
    exact ⟨follows.host,follows.options,follows.limit,kept⟩

theorem Follows.execute (follows : start.Follows s) (method : Method) (arguments : List Value) :
    start.Follows (s.execute method arguments).2 := by
  have compiles := follows.compile method
  unfold Session.execute
  split
  · rename_i e next compiled
    rw [compiled] at compiles
    exact compiles
  · rename_i code next compiled
    rw [compiled] at compiles
    have runs := compiles.run code arguments
    split
    · rename_i frame last ran
      rw [ran] at runs
      exact runs
    · rename_i e last ran
      rw [ran] at runs
      exact runs

theorem Follows.after (follows : start.Follows s) (call : Call) :
    start.Follows (s.after call) := by
  cases call with
  | register p =>
    simp only [Session.after]
    split
    · rename_i grown registered
      exact follows.register registered
    · exact follows
  | resolve name => exact ⟨follows.host,follows.options,follows.limit,follows.objects⟩
  | compile method => exact follows.compile method
  | compileAll methods => exact ⟨follows.host,follows.options,follows.limit,follows.objects⟩
  | run compiled arguments => exact follows.run compiled arguments
  | execute method arguments => exact follows.execute method arguments

theorem callsFollow (follows : start.Follows s) (calls : List Call) :
    start.Follows (calls.foldl Session.after s) := by
  induction calls generalizing s with
  | nil => exact follows
  | cons call rest ih => exact ih (follows.after call)

end Session

theorem acceptedCodeIsSound {host : Host} (contract : host.Keeps Heap.SameShapes)
    {options : CompileOptions} (solid : options.implicitType ≠ .void)
    (other : options.implicitType ≠ .string) :
    (∀ compiled, Accepted options compiled → ∀ limit arguments (context : Context),
      context.store.HoldsObjects →
        EndsSoundly compiled limit ((execute host limit compiled arguments).run context)) ∧
    ∀ start : Session, start.host = host → start.options = options →
      start.context.store.HoldsObjects → ∀ calls : List Call,
        (calls.foldl Session.after start).context.store.HoldsObjects ∧
        ∀ compiled, Accepted options compiled → ∀ arguments,
          EndsSoundly compiled start.limit ((execute host start.limit compiled arguments).run
            (calls.foldl Session.after start).context) := by
  have sound := @acceptedEndsSoundly host options ⟨contract,fun _ => ⟨solid,other⟩⟩
  refine ⟨fun compiled accepted limit arguments context objects =>
    sound accepted limit arguments objects,?_⟩
  rintro start rfl rfl objects calls
  have follows := Session.callsFollow (s := start) ⟨rfl,rfl,rfl,objects⟩ calls
  exact ⟨follows.objects,fun compiled accepted arguments =>
    sound accepted start.limit arguments follows.objects⟩

def storedNumber : Method :=
  ⟨"main",[.assign (.localRef "n" .start) (.indexed (.null .start) (.constant (.string "Key")
      .start) .start) .start,
    .assign (.indexed (.null .start) (.constant (.string "KEY") .start) .start)
      (.localRef "n" .start) .start],.start⟩

theorem storedNumberIsSound :
    CompiledMethod.quietHost.Keeps Heap.SameShapes ∧
    ({} : CompileOptions).implicitType = .int ∧ ({} : Store).HoldsObjects ∧
    ∃ compiled, Accepted {} compiled ∧ compiled.listing.size = 11 ∧
      EndsSoundly compiled 3 ((execute CompiledMethod.quietHost 3 compiled []).run
        ([Call.execute storedNumber [],Call.run compiled []].foldl Session.after
          { host := CompiledMethod.quietHost, lookup := ⟨{},none⟩, limit := 3 }).context) := by
  obtain ⟨compiled,ok,size⟩ : ∃ compiled,
      (compileMethod ⟨⟨{},none⟩,{}⟩ storedNumber 0).1 = .ok compiled ∧
        compiled.listing.size = 11 := ⟨_,rfl,rfl⟩
  have contract : CompiledMethod.quietHost.Keeps Heap.SameShapes :=
    CompiledMethod.quietHostKeeps Heap.sameShapesRefl
  have accepted : Accepted {} compiled := ⟨_,_,_,ok⟩
  have sound := (@acceptedCodeIsSound _ contract {} (by decide) (by decide)).2
    { host := CompiledMethod.quietHost, lookup := ⟨{},none⟩, limit := 3 } rfl rfl
    Store.emptyObjects [.execute storedNumber [],.run compiled []]
  exact ⟨contract,rfl,Store.emptyObjects,compiled,accepted,size,sound.2 compiled accepted []⟩

end ScriptMachine
