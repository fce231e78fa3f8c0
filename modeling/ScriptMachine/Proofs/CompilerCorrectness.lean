import ScriptMachine.Proofs.Simulation
/-! Compiler correctness: the run of a compiled method ends as the evaluation of
the method does, with the same variables, store, environment and arrays. It can
stop early for two reasons only. The stack is full, which never happens where it
may hold as many values as the code has instructions; or a check of the machine
refuses a value, which never happens where types can be trusted. -/
namespace ScriptMachine

/-- How an evaluation and a run end alike. The slots hold the variables in the
order in which they were bound, and a refused write leaves one context behind. -/
inductive Agrees (compiled : CompiledMethod) :
    EStateM.Result EvalError EvalState Unit → EStateM.Result RuntimeError Context Frame → Prop where
  | finished (s : EvalState) (names : s.table.map (·.name) = compiled.locals.map (·.name))
      (types : s.table.map (·.type) = compiled.locals.map (·.type)) :
      Agrees compiled (.ok () s)
        (.ok ⟨s.table.map (·.name),s.table.map (·.value),[]⟩ s.context)
  | failed (e : NativeError) (s : EvalState) :
      Agrees compiled (.error (.native e) s) (.error (.native e) s.context)

theorem listingLength (listing : Listing) : listing.instructions.length = listing.size := by
  simp [Listing.instructions,Listing.size]

structure Trusted (options : CompileOptions) (store : Store) : Prop where
  solid : options.implicitType ≠ .void
  other : options.implicitType ≠ .string
  objects : store.HoldsObjects

theorem compiledRunAgrees {host : Host} (contract : host.Keeps Heap.SameShapes)
    {setup : CompileSetup} {method : Method} {queries : Nat} {compiled : CompiledMethod}
    (ok : (compileMethod setup method queries).1 = .ok compiled) (limit : Nat)
    (arguments : List Value) (context : Context) :
    Agrees compiled (method.evaluate host setup queries arguments context)
        ((execute host limit compiled arguments).run context) ∨
    (limit < compiled.listing.size ∧ ∃ offset after,
      (execute host limit compiled arguments).run context =
        .error (.stackOverflow offset limit) after) ∨
    (¬ Trusted setup.options context.store ∧ ∃ expected found offset after,
      (execute host limit compiled arguments).run context =
        .error (.typeMismatch expected found offset) after) := by
  have sane : Sane (Trusted setup.options context.store) host setup.options :=
    ⟨contract,fun trusted => ⟨trusted.solid,trusted.other⟩⟩
  rw [CompiledMethod.executeRun]
  cases methodRefines sane ok limit arguments Trusted.objects with
  | done u s m ran evaluated holds =>
    obtain ⟨stack,same,tables⟩ := holds
    obtain ⟨names,types,values⟩ := tables.columns
    have ended : method.evaluate host setup queries arguments context = .ok () s := evaluated
    rw [ended,ran]
    simp only [stack,same,← names,← values]
    exact .inl (.finished s names types)
  | failed e s m ran evaluated same =>
    have ended : method.evaluate host setup queries arguments context = .error (.native e) s :=
      evaluated
    rw [ended,ran]
    simp only [same]
    exact .inl (.failed e s)
  | overflow place m ran short =>
    have long : limit < 0 + compiled.listing.instructions.length := short
    rw [Nat.zero_add,listingLength] at long
    rw [ran]
    exact .inr (.inl ⟨long,place,m.context,rfl⟩)
  | mismatch expected found place m ran loose =>
    rw [ran]
    exact .inr (.inr ⟨loose,expected,found,place,m.context,rfl⟩)

def levelHost : Host :=
  ⟨fun _ => false,0,fun _ env heap => ⟨env.errorLevel,heap⟩,fun _ owner v s =>
    match v with
    | .null => .error (.other owner) s
    | _ => .ok () { s with environment := { s.environment with errorLevel := v } }⟩

theorem levelHostKeeps {kept : Heap → Heap → Prop} (same : ∀ heap, kept heap heap) :
    levelHost.Keeps kept := by
  refine ⟨fun _ _ heap => same heap,?_⟩
  intro routine owner v s
  cases v <;> exact same s.heap

def levelSetup : CompileSetup :=
  ⟨⟨{},some fun query name _ => some ⟨name,some (.host 0 query),some (.host 0 query name)⟩⟩,{}⟩

def nestedAssignments : Method :=
  ⟨"main",[.declare "a" (.arrayOf "int" [.assign (.localRef "n" .start) (.constant (.string "4")
      .start) .start,.localRef "n" .start] .start) .start,
    .declare "was" (.property "Level" .start) .start,
    .assign (.indexed (.null .start) (.localRef "n" .start) .start)
      (.assign (.property "Level" .start) (.localRef "n" .start) .start) .start,
    .declare "is" (.property "Level" .start) .start,
    .evaluate (.assign (.property "Level" .start) (.null .start) .start) .start],.start⟩

theorem nestedAssignmentsAgree :
    levelHost.Keeps Heap.SameShapes ∧
    ∃ compiled s, (compileMethod levelSetup nestedAssignments 0).1 = .ok compiled ∧
      compiled.listing.size = 32 ∧
      nestedAssignments.evaluate levelHost levelSetup 0 [] {} =
        .error (.native (.other "Level")) s ∧
      s.table = [⟨"n",.int,.int 4⟩,⟨"a",.array .int,.array 1⟩,
        ⟨"was",.object,.boxed (.int 0)⟩,⟨"is",.object,.boxed (.int 4)⟩] ∧
      Agrees compiled (nestedAssignments.evaluate levelHost levelSetup 0 [] {})
        ((execute levelHost 32 compiled []).run {}) := by
  obtain ⟨compiled,ok,size⟩ : ∃ compiled,
      (compileMethod levelSetup nestedAssignments 0).1 = .ok compiled ∧
        compiled.listing.size = 32 := exceptOk (by decide +kernel)
  have failed : failure? (nestedAssignments.evaluate levelHost levelSetup 0 [] {}) =
      some (.native (.other "Level")) := by decide +kernel
  have bound : (lastState (nestedAssignments.evaluate levelHost levelSetup 0 [] {})).table =
      [⟨"n",.int,.int 4⟩,⟨"a",.array .int,.array 1⟩,⟨"was",.object,.boxed (.int 0)⟩,
        ⟨"is",.object,.boxed (.int 4)⟩] := by decide +kernel
  obtain ⟨s,ended⟩ := failureFound failed
  rw [ended] at bound
  have contract : levelHost.Keeps Heap.SameShapes := levelHostKeeps Heap.sameShapesRefl
  refine ⟨contract,compiled,s,ok,size,ended,bound,?_⟩
  rcases compiledRunAgrees contract ok 32 [] {} with agrees | ⟨short,_⟩ | ⟨untrusted,_⟩
  · exact agrees
  · omega
  · exact absurd ⟨by decide,by decide,Store.emptyObjects⟩ untrusted

-- a name bound with the type string holds null at first, and null is no key
example : ∃ compiled after,
    (compileMethod ⟨⟨{},none⟩,{ implicitType := .string }⟩ ⟨"main",[.evaluate (.indexed
      (.null .start) (.assign (.localRef "x" .start) (.localRef "x" .start) .start) .start)
      .start],.start⟩ 0).1 = .ok compiled ∧
    (execute levelHost 5 compiled []).run {} = .error (.typeMismatch "string" .null 4) after :=
  ⟨_,_,rfl,rfl⟩

end ScriptMachine
