import ScriptMachine.Proofs.ArrayOwnership
/-! A run of compiled code writes only into arrays that it made itself and that
nothing has come to refer to. So it changes no array that was there before, and
where there was no cycle, none can arise: what the run leaves has finite contents. -/
namespace ScriptMachine
open Relation (TransGen ReflTransGen)

namespace CompiledMethod

section Histories
variable (method : CompiledMethod) (host : Host) (limit : Nat) (arguments : List Value)
variable (context : Context)

/-- An instruction in front of the one at `n` made the array, and up to there no
local, key, array or place of the environment has referred to it. -/
structure Unpublished (n : Nat) (id : ArrayId) : Prop where
  made : ∃ k < n, ∃ element before after,
    method.listing.instructions[k]? = some (.newArray element) ∧
    method.Reaches host limit arguments context k before ∧
    method.Reaches host limit arguments context (k + 1) after ∧
    before.context.heap.cell? id = none ∧ after.stack.head? = some (.array id)
  unshared : ∀ k ≤ n, ∀ before, method.Reaches host limit arguments context k before →
    ¬ before.Shares id

structure Traced (smooth : Prop) (own : ArrayId → Prop) (n : Nat) (a : Stage) (m : Machine) :
    Prop where
  reached : method.Reaches host limit arguments context n m
  known : ∀ k ≤ n, ∀ before id, method.Reaches host limit arguments context k before →
    before.Shares id → id < m.context.heap.size
  held : ∃ mine built, Held smooth own (method.start arguments context).context.heap
    (method.setting host limit context) mine built a m ∧
    ∀ id ∈ built, method.Unpublished host limit arguments context n id

variable {method host limit arguments context}

theorem Reaches.unique {n : Nat} {m other : Machine}
    (reached : method.Reaches host limit arguments context n m)
    (also : method.Reaches host limit arguments context n other) : m = other := by
  cases reached.symm.trans also
  rfl

theorem Reaches.next {n : Nat} {i : Instruction} {m next : Machine}
    (reached : method.Reaches host limit arguments context n m)
    (found : method.listing.instructions[n]? = some i)
    (stepped : (step (method.setting host limit context) n i).run m = .ok () next) :
    method.Reaches host limit arguments context (n + 1) next := by
  have below := (List.getElem?_eq_some_iff.mp found).1
  unfold Reaches at reached ⊢
  rw [List.take_add_one,found,runAppend,reached]
  simp only [Option.toList_some,List.length_take,Nat.min_eq_left (Nat.le_of_lt below),
    Nat.zero_add,runCons,stepped]
  rfl

variable {smooth : Prop} {own : ArrayId → Prop} {n : Nat} {a b : Stage} {m next : Machine}

theorem Traced.stepping (careful : host.Careful own) {i : Instruction}
    (found : method.listing.instructions[n]? = some i) (does : Does method i a b)
    (traced : method.Traced host limit arguments context smooth own n a m)
    (stepped : (step (method.setting host limit context) n i).run m = .ok () next) :
    method.Traced host limit arguments context smooth own (n + 1) b next := by
  obtain ⟨reached,known,mine,built,held,fresh⟩ := traced
  obtain ⟨more,left,after,builds⟩ := held.stepping careful does stepped
  have later := reached.next found stepped
  -- what concerns the new last machine is a matter of ownership, all else is known from before
  have last : ∀ k ≤ n + 1, ∀ before, method.Reaches host limit arguments context k before →
      k ≤ n ∨ before = next := by
    intro k upTo before there
    rcases Nat.lt_or_eq_of_le upTo with earlier | rfl
    · exact .inl (Nat.le_of_lt_succ earlier)
    · exact .inr (there.unique later)
  have unshared : ∀ id ∈ left, (∀ k ≤ n, ∀ before,
        method.Reaches host limit arguments context k before → ¬ before.Shares id) →
      ∀ k ≤ n + 1, ∀ before, method.Reaches host limit arguments context k before →
        ¬ before.Shares id := by
    intro id member soFar k upTo before there
    rcases last k upTo before there with earlier | rfl
    · exact soFar k earlier before there
    · exact after.owned.unshared member
  refine ⟨later,?_,more,left,after,?_⟩
  · intro k upTo before id there shares
    rcases last k upTo before there with earlier | rfl
    · exact Nat.lt_of_lt_of_le (known k earlier before id there shares) builds.grown
    · exact after.owned.sharedKnown shares
  · intro id member
    rcases builds.origin id member with old | ⟨rfl,top,element,rfl⟩
    · obtain ⟨⟨k,earlier,made⟩,soFar⟩ := fresh id old
      exact ⟨⟨k,Nat.lt_succ_of_lt earlier,made⟩,unshared id member soFar⟩
    · have absent : m.context.heap.cell? m.context.heap.size = none :=
        Array.getElem?_eq_none (Nat.le_refl _)
      refine ⟨⟨n,Nat.lt_succ_self n,element,m,next,found,reached,later,absent,top⟩,
        unshared _ member ?_⟩
      intro k earlier before there shares
      exact Nat.lt_irrefl _ (known k earlier before _ there shares)

theorem Traced.kept (careful : host.Careful own) (implicit : StaticType) :
    Kept (method.setting host limit context) implicit
      (method.Traced host limit arguments context smooth own) := by
  constructor
  · intro n a b m adjusts traced
    obtain ⟨reached,known,mine,built,held,fresh⟩ := traced
    obtain ⟨more,left,fewer,adjusted⟩ := held.adjusting adjusts
    exact ⟨reached,known,more,left,adjusted,fun id member => fresh id (fewer member)⟩
  · intro n i a b m next found does traced stepped
    exact traced.stepping careful found does stepped

end Histories
end CompiledMethod

section Starting
variable {own : ArrayId → Prop} {arguments : List Value} {context : Context}

def Given (own : ArrayId → Prop) (arguments : List Value) (context : Context) (id : ArrayId) :
    Prop :=
  own id ∨ (∃ v ∈ arguments, v.ref? = some id) ∨ context.Names id

structure Context.Whole (context : Context) (own : ArrayId → Prop) (arguments : List Value) :
    Prop where
  held : ∀ {a b}, context.heap.Holds a b → b < context.heap.size
  given : ∀ {id}, Given own arguments context id → id < context.heap.size

def Context.Acyclic (context : Context) (own : ArrayId → Prop) (arguments : List Value) : Prop :=
  ∀ id, Given own arguments context id → context.heap.Acyclic id

def GivenWith (own : ArrayId → Prop) (arguments : List Value) (context : Context) (id : ArrayId) :
    Prop :=
  ∃ root, Given own arguments context root ∧ ReflTransGen context.heap.Holds root id

theorem Context.Whole.region (whole : context.Whole own arguments) :
    Region context.heap (GivenWith own arguments context) := by
  constructor
  · rintro id ⟨root,given,leads⟩
    cases leads with
    | refl => exact whole.given given
    | tail _ holds => exact whole.held holds
  · rintro a b ⟨root,given,leads⟩ holds
    exact ⟨root,given,leads.tail holds⟩

theorem startNames {method : CompiledMethod} {id : ArrayId}
    (names : (method.start arguments context).Names id) : context.Names id := by
  rcases names with ⟨v,member,refers⟩ | names
  · obtain ⟨entry,_,rfl⟩ := List.mem_map.mp member
    rw [Value.initialRef] at refers
    cases refers
  · cases names with
    | key found refers => exact .key found refers
    | level refers => exact .level refers

theorem Context.Whole.startOwned (whole : context.Whole own arguments) (method : CompiledMethod) :
    Owned (context.Acyclic own arguments) own (method.start arguments context).context.heap
      context.heap.size
      (fun x => x = context.heap.size ∨ GivenWith own arguments context x) []
      (method.start arguments context) := by
  have region := whole.region
  have size := context.heap.sizeAlloc ⟨.object,(arguments.map Value.asObject).toArray⟩
  have holds : ∀ {a b}, (method.start arguments context).context.heap.Holds a b →
      context.heap.Holds a b ∨ a = context.heap.size ∧ GivenWith own arguments context b := by
    intro a b holds
    refine (Heap.holdsAlloc holds).imp_right fun ⟨last,item,member,refers⟩ => ⟨last,b,?_,.refl⟩
    obtain ⟨v,argument,rfl⟩ := List.mem_map.mp (List.mem_toArray.mp member)
    rw [Value.asObjectRef] at refers
    exact .inr (.inl ⟨v,argument,refers⟩)
  have old : ∀ {a b}, GivenWith own arguments context a →
      (method.start arguments context).context.heap.Holds a b → context.heap.Holds a b := by
    intro a b inside edge
    rcases holds edge with before | ⟨rfl,_⟩
    · exact before
    · exact absurd (region.there inside) (Nat.lt_irrefl _)
  have leads : ∀ {b}, (method.start arguments context).context.heap.Holds context.heap.size b →
      GivenWith own arguments context b := by
    intro b edge
    rcases holds edge with before | ⟨_,inside⟩
    · exact absurd before (Heap.emptyBeyond (Nat.le_refl _))
    · exact inside
  have grown : ∀ {x}, x ≤ context.heap.size →
      x < (method.start arguments context).context.heap.size :=
    fun upTo => Nat.lt_of_lt_of_eq (Nat.lt_succ_of_le upTo) size.symm
  have stays : Region (method.start arguments context).context.heap
      (GivenWith own arguments context) :=
    ⟨fun inside => grown (Nat.le_of_lt (region.there inside)),
      fun inside edge => region.closed inside (old inside edge)⟩
  refine ⟨Heap.withinRefl _,⟨?_,?_⟩,?_,nofun,nofun,?_,?_,.inl rfl,?_⟩
  · rintro x (rfl | inside)
    · exact grown (Nat.le_refl _)
    · exact stays.there inside
  · rintro a b (rfl | inside) edge
    · exact .inr (leads edge)
    · exact .inr (stays.closed inside edge)
  · rintro flat x (rfl | inside) loop
    -- nothing that was there before refers to the array of arguments
    · obtain ⟨y,edge,back⟩ := TransGen.head'_iff.mp loop
      exact Nat.lt_irrefl _ (region.there (stays.reached (leads edge) back))
    · obtain ⟨root,given,path⟩ := inside
      exact flat root given x path (region.unchanged old ⟨root,given,path⟩ loop).1
  · intro a b edge
    rcases holds edge with before | ⟨_,inside⟩
    · exact .inr (grown (Nat.le_of_lt (whole.held before)))
    · exact .inl (.inr inside)
  · intro id mineOwn
    exact .inr ⟨id,.inl mineOwn,.refl⟩
  · intro id names
    exact .inr ⟨id,.inr (.inr (startNames names)),.refl⟩

end Starting

section Ending
variable {smooth : Prop} {own mine : ArrayId → Prop} {built : List ArrayId}

theorem Laid.inside {kinds : List Kind} {stack : List Value} (laid : Laid mine kinds stack built) :
    ∀ v ∈ stack, ∀ id, v.ref? = some id → id ∈ built ∨ mine id := by
  induction laid with
  | nil => nofun
  | value inside rest ih =>
    intro v member id refers
    rcases List.mem_cons.mp member with rfl | below
    · exact .inr (inside id refers)
    · exact ih v below id refers
  | store rest ih =>
    intro v member id refers
    rcases List.mem_cons.mp member with rfl | below
    · cases refers
    · exact ih v below id refers
  | building other rest ih =>
    intro v member id refers
    rcases List.mem_cons.mp member with rfl | below
    · cases refers
      exact .inl List.mem_cons_self
    · exact (ih v below id refers).imp_left (List.mem_cons_of_mem _)
  | target rest ih =>
    intro v member id refers
    rcases List.mem_cons.mp member with rfl | below
    · cases refers
      exact .inl List.mem_cons_self
    · exact ih v below id refers

theorem Owned.finite {first : Heap} {arguments : ArrayId} {m : Machine}
    (owned : Owned smooth own first arguments mine built m) (flat : smooth) {v : Value}
    (inside : ∀ id, v.ref? = some id → id ∈ built ∨ mine id) : m.context.heap.Finite v := by
  rw [← List.append_nil built] at owned
  have published := owned.publish fun _ _ => List.not_mem_nil
  exact published.region.finite (published.smooth flat) inside

theorem Owned.namedFinite {first : Heap} {arguments : ArrayId} {m : Machine}
    (owned : Owned smooth own first arguments mine built m) (flat : smooth) {v : Value}
    (named : (∃ name, m.context.store.get? name = some v) ∨ v = m.context.environment.errorLevel) :
    m.context.heap.Finite v := by
  refine owned.finite flat fun id refers => .inr (owned.names (.inr ?_))
  rcases named with ⟨name,found⟩ | rfl
  · exact .key found refers
  · exact .level refers

variable {host : Host} {limit : Nat} {setup : CompileSetup} {method : Method} {queries : Nat}
variable {compiled : CompiledMethod} {arguments : List Value} {context : Context}

theorem startTraced (whole : context.Whole own arguments) (host : Host) (limit : Nat)
    (compiled : CompiledMethod) :
    compiled.Traced host limit arguments context (context.Acyclic own arguments) own 0 ⟨0,[]⟩
      (compiled.start arguments context) := by
  have owned := whole.startOwned compiled
  refine ⟨rfl,?_,_,[],⟨owned,.nil⟩,nofun⟩
  intro k none before id there shares
  cases Nat.le_zero.mp none
  cases there
  exact owned.sharedKnown shares

theorem tracedBefore (careful : host.Careful own)
    (ok : (compileMethod setup method queries).1 = .ok compiled)
    (whole : context.Whole own arguments) {n : Nat} {i : Instruction} {m : Machine}
    (found : compiled.listing.instructions[n]? = some i)
    (reached : compiled.Reaches host limit arguments context n m) :
    ∃ a b, compiled.Traced host limit arguments context (context.Acyclic own arguments) own n a m ∧
      Does compiled i a b := by
  obtain ⟨last,flows⟩ := methodFlows ok
  have before := (CompiledMethod.Traced.kept careful _).before flows rfl
    (startTraced whole host limit compiled) found reached
  rwa [Nat.zero_add] at before

theorem writesUnpublished (careful : host.Careful own)
    (ok : (compileMethod setup method queries).1 = .ok compiled)
    (whole : context.Whole own arguments) {n : Nat} {m : Machine}
    (found : compiled.listing.instructions[n]? = some .storeElement)
    (reached : compiled.Reaches host limit arguments context n m) :
    ∃ id, m.stack[2]? = some (.array id) ∧
      compiled.Unpublished host limit arguments context n id := by
  obtain ⟨a,b,⟨_,_,mine,built,⟨_,laid⟩,fresh⟩,does⟩ := tracedBefore careful ok whole found reached
  obtain ⟨locals,stack,context⟩ := m
  cases does with
  | storeElement =>
    cases laid with
    | value inside rest =>
      cases rest with
      | value indexInside rest =>
        cases rest with
        | target rest => exact ⟨_,rfl,fresh _ List.mem_cons_self⟩

theorem endsOwned (careful : host.Careful own)
    (ok : (compileMethod setup method queries).1 = .ok compiled)
    (whole : context.Whole own arguments) {outcome : StepResult}
    (ran : (runFrom (compiled.setting host limit context) 0 compiled.listing.instructions).run
      (compiled.start arguments context) = outcome) :
    ∃ mine built, Owned (context.Acyclic own arguments) own
        (compiled.start arguments context).context.heap context.heap.size mine built
        (lastState outcome) ∧
      ∀ m, outcome = .ok () m → ∀ v ∈ m.stack, ∀ id, v.ref? = some id → id ∈ built ∨ mine id := by
  cases outcome with
  | ok u m =>
    obtain ⟨last,flows⟩ := methodFlows ok
    obtain ⟨_,_,mine,built,held,_⟩ := (CompiledMethod.Traced.kept careful _).finished flows rfl
      (startTraced whole host limit compiled) ran
    refine ⟨mine,built,held.owned,?_⟩
    rintro _ ⟨⟩
    exact held.laid.inside
  | error e m =>
    obtain ⟨k,i,before,found,reached,stopped⟩ := runFailure ran
    rw [Nat.zero_add] at stopped
    obtain ⟨a,b,⟨_,_,mine,built,held,_⟩,does⟩ := tracedBefore careful ok whole found reached
    have room := compiled.pointRoom host limit arguments context k
    rw [CompiledMethod.point,reached] at room
    obtain ⟨more,owned⟩ := held.failing careful does (stepFails room stopped)
    refine ⟨more,built,owned,?_⟩
    intro m impossible
    cases impossible

end Ending

structure LeavesFinite (outcome : EStateM.Result RuntimeError Context Frame) : Prop where
  named : ∀ v, (∃ name, (lastState outcome).store.get? name = some v) ∨
    v = (lastState outcome).environment.errorLevel → (lastState outcome).heap.Finite v
  framed : ∀ frame after, outcome = .ok frame after →
    ∀ v, v ∈ frame.locals ∨ v ∈ frame.stack → after.heap.Finite v

/-- The array that an instruction stores into is the third operand. -/
theorem onlyFreshArraysChange {host : Host} {own : ArrayId → Prop} {setup : CompileSetup}
    {method : Method} {queries : Nat} {compiled : CompiledMethod} {context : Context}
    {arguments : List Value} (careful : host.Careful own)
    (ok : (compileMethod setup method queries).1 = .ok compiled)
    (whole : context.Whole own arguments) (limit : Nat) :
    (∀ n m, compiled.listing.instructions[n]? = some .storeElement →
      compiled.Reaches host limit arguments context n m →
      ∃ id, m.stack[2]? = some (.array id) ∧
        compiled.Unpublished host limit arguments context n id) ∧
    context.heap.Within (lastState ((execute host limit compiled arguments).run context)).heap ∧
    (context.Acyclic own arguments →
      LeavesFinite ((execute host limit compiled arguments).run context)) := by
  refine ⟨fun n m => writesUnpublished careful ok whole,?_⟩
  have kept : context.heap.Within (compiled.start arguments context).context.heap :=
    context.heap.withinAlloc _
  rw [compiled.executeRun]
  cases ran : (runFrom (compiled.setting host limit context) 0 compiled.listing.instructions).run
      (compiled.start arguments context) with
  | ok u m =>
    obtain ⟨mine,built,owned,onStack⟩ := endsOwned careful ok whole ran
    refine ⟨kept.trans owned.kept,fun flat => ⟨fun v => owned.namedFinite flat,?_⟩⟩
    rintro frame after ⟨⟩ v (slot | below)
    · exact owned.finite flat fun id refers => .inr (owned.names (.inl ⟨v,slot,refers⟩))
    · exact owned.finite flat (onStack m rfl v below)
  | error e m =>
    obtain ⟨mine,built,owned,_⟩ := endsOwned careful ok whole ran
    exact ⟨kept.trans owned.kept,fun flat => ⟨fun v => owned.namedFinite flat,nofun⟩⟩

theorem quietHostCareful (own : ArrayId → Prop) : CompiledMethod.quietHost.Careful own := by
  constructor
  · intro routine s _
    exact .idle nofun
  · intro routine owner v s _
    exact .idle fun id refers => .inr (.inl refers)

def oneArray : Context :=
  { heap := ⟨#[⟨.object,#[.null]⟩]⟩ }

theorem oneArrayHolds {a b : ArrayId} : ¬ oneArray.heap.Holds a b := by
  rintro ⟨cell,item,found,member,refers⟩
  cases a with
  | zero =>
    cases found
    cases List.mem_singleton.mp (Array.mem_toList_iff.mpr member)
    cases refers
  | succ a => cases found

def keepsArguments : Method :=
  ⟨"main",[.declare "x" (.arrayOf "object" [.argument 0 .start] .start) .start],.start⟩

theorem keptArgumentsFresh :
    (CompiledMethod.quietHost.Careful (fun _ => False) ∧
      oneArray.Whole (fun _ => False) [.array 0] ∧ oneArray.Acyclic (fun _ => False) [.array 0]) ∧
    ∃ compiled m id, (compileMethod ⟨⟨{},none⟩,{}⟩ keepsArguments 0).1 = .ok compiled ∧
      compiled.Reaches CompiledMethod.quietHost 9 [.array 0] oneArray 5 m ∧
      m.stack[2]? = some (.array id) ∧
      compiled.Unpublished CompiledMethod.quietHost 9 [.array 0] oneArray 5 id ∧
      (lastState ((execute CompiledMethod.quietHost 9 compiled [.array 0]).run
        oneArray)).heap.cells =
        #[⟨.object,#[.null]⟩,⟨.object,#[.array 0]⟩,⟨.object,#[.array 1]⟩] ∧
      LeavesFinite ((execute CompiledMethod.quietHost 9 compiled [.array 0]).run oneArray) := by
  have careful := quietHostCareful fun _ => False
  have whole : oneArray.Whole (fun _ => False) [.array 0] := by
    refine ⟨fun holds => absurd holds oneArrayHolds,?_⟩
    rintro id (never | ⟨v,argument,refers⟩ | names)
    · cases never
    · cases List.mem_singleton.mp argument
      cases refers
      exact Nat.zero_lt_one
    · cases names with
      | key found refers => cases found
      | level refers => cases refers
  have acyclic : oneArray.Acyclic (fun _ => False) [.array 0] := by
    intro id given other leads loop
    obtain ⟨next,holds,_⟩ := TransGen.head'_iff.mp loop
    exact oneArrayHolds holds
  obtain ⟨compiled,ok,facts⟩ : ∃ compiled,
      (compileMethod ⟨⟨{},none⟩,{}⟩ keepsArguments 0).1 = .ok compiled ∧
      (compiled.listing.instructions[5]?,
        values? id ((runFrom (compiled.setting CompiledMethod.quietHost 9 oneArray) 0
          (compiled.listing.instructions.take 5)).run (compiled.start [.array 0] oneArray)),
        (lastState ((execute CompiledMethod.quietHost 9 compiled [.array 0]).run
          oneArray)).heap.cells) =
        (some .storeElement,some (),
          #[⟨.object,#[.null]⟩,⟨.object,#[.array 0]⟩,⟨.object,#[.array 1]⟩]) :=
    exceptOk (by decide +kernel)
  simp only [Prod.mk.injEq] at facts
  obtain ⟨found,ran,cells⟩ := facts
  obtain ⟨u,m,reached,_⟩ := valuesOk ran
  obtain ⟨writes,_,finite⟩ := onlyFreshArraysChange careful ok whole 9
  obtain ⟨id,target,fresh⟩ := writes 5 m found reached
  exact ⟨⟨careful,whole,acyclic⟩,compiled,m,id,ok,reached,target,fresh,cells,finite acyclic⟩

end ScriptMachine
