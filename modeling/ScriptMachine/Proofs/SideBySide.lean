import ScriptMachine.Proofs.RunPoint
/-! Two runs side by side. Their code is the same but for the spelling of keys,
their stacks hold the same values but for those keys, and their stores need not
be equal, only in a relation that every read and every write of the code
respects. Then each step does the same in both, so that they return the same
frame or stop with the same error. -/
namespace ScriptMachine

inductive Ends {ε φ σ τ α β : Type} (results : α → β → Prop) (faults : ε → φ → Prop)
    (ended stopped : σ → τ → Prop) : EStateM.Result ε σ α → EStateM.Result φ τ β → Prop where
  | ok {a b s t} (result : results a b) (left : ended s t) :
      Ends results faults ended stopped (.ok a s) (.ok b t)
  | error {e f s t} (fault : faults e f) (left : stopped s t) :
      Ends results faults ended stopped (.error e s) (.error f t)

theorem Ends.bind {ε φ σ τ α β γ δ : Type} {results : α → β → Prop} {last : γ → δ → Prop}
    {faults : ε → φ → Prop} {ended stopped final : σ → τ → Prop} {x : EStateM ε σ α}
    {y : EStateM φ τ β} {f : α → EStateM ε σ γ} {g : β → EStateM φ τ δ} {s : σ} {t : τ}
    (first : Ends results faults ended stopped (x.run s) (y.run t))
    (next : ∀ a b s t, results a b → ended s t →
      Ends last faults final stopped ((f a).run s) ((g b).run t)) :
    Ends last faults final stopped ((x >>= f).run s) ((y >>= g).run t) := by
  simp only [EStateM.run_bind]
  generalize x.run s = left, y.run t = right at first ⊢
  cases first with
  | ok result kept => exact next _ _ _ _ result kept
  | error fault kept => exact .error fault kept

abbrev Alike {ε σ τ α β : Type} (results : α → β → Prop) (ended stopped : σ → τ → Prop) :
    EStateM.Result ε σ α → EStateM.Result ε τ β → Prop :=
  Ends results Eq ended stopped

theorem Alike.last {ε σ τ α β : Type} {results : α → β → Prop} {left : σ → τ → Prop}
    {x : EStateM.Result ε σ α} {y : EStateM.Result ε τ β} (alike : Alike results left left x y) :
    left (lastState x) (lastState y) := by
  cases alike with
  | ok result left => exact left
  | error fault left => exact left

/-- What two runs have at a place of the stack: one value, or a key of the store
that each may spell in its own way. -/
inductive Spot where
  | value
  | key (folded : String)
  deriving DecidableEq, Repr

inductive Spot.Holds : Spot → Value → Value → Prop where
  | value (v) : Holds .value v v
  | key {a b} (same : Text.fold a = Text.fold b) :
      Holds (.key (Text.fold a)) (.string a) (.string b)

inductive StacksHold : List Spot → List Value → List Value → Prop where
  | nil : StacksHold [] [] []
  | cons {spot v w spots stack other} (top : spot.Holds v w) (rest : StacksHold spots stack other) :
      StacksHold (spot :: spots) (v :: stack) (w :: other)

theorem StacksHold.sameHeight {spots : List Spot} {stack other : List Value}
    (stacked : StacksHold spots stack other) : stack.length = other.length := by
  induction stacked with
  | nil => rfl
  | cons top rest ih => simp [ih]

theorem StacksHold.same {spots : List Spot} {stack other : List Value}
    (stacked : StacksHold spots stack other) (plain : ∀ spot ∈ spots, spot = .value) :
    stack = other := by
  induction stacked with
  | nil => rfl
  | cons top rest ih =>
    have first := plain _ List.mem_cons_self
    subst first
    cases top
    rw [ih fun spot member => plain spot (List.mem_cons_of_mem _ member)]

namespace Store

theorem getFold (store : Store) (key : String) : store.get? (Text.fold key) = store.get? key := by
  simp only [get?,Text.foldFold]

theorem setFold (store : Store) (key : String) (v : Value) :
    store.set (Text.fold key) v = store.set key v := by
  simp only [set,Text.foldFold]

end Store

def Spot.Reads (agree : Store → Store → Prop) : Spot → Prop
  | key folded => ∀ s t, agree s t → s.get? folded = t.get? folded
  | value => ∀ name s t, agree s t → s.get? name = t.get? name

theorem Spot.Holds.fetchSame {agree : Store → Store → Prop} {spot : Spot} {key other : Value}
    (held : spot.Holds key other) (reads : spot.Reads agree) {s t : Store} (near : agree s t)
    (target : Value) (offset : Nat) : s.fetch target key offset = t.fetch target other offset := by
  cases target with
  | store =>
    cases held with
    | key same =>
      have found := reads s t near
      rw [s.getFold,same,t.getFold] at found
      exact congrArg (fun v => Except.ok (v.getD .null)) found
    | value =>
      cases key with
      | string name => exact congrArg (fun v => Except.ok (v.getD .null)) (reads name s t near)
      | null | int | long | decimal | bool | boxed | array | store => rfl
  | null | int | long | decimal | bool | string | boxed | array => rfl

def Spot.Writes (agree : Store → Store → Prop) : Spot → Prop
  | key folded => ∀ s t v, agree s t → agree (s.set folded v) (t.set folded v)
  | value => ∀ name s t v, agree s t → agree (s.set name v) (t.set name v)

theorem Spot.Holds.assignTogether {agree : Store → Store → Prop} {spot : Spot} {key other : Value}
    (held : spot.Holds key other) (writes : spot.Writes agree) {s t : Store} (near : agree s t)
    (target v : Value) (offset : Nat) :
    (∃ e, s.assign target key v offset = .error e ∧ t.assign target other v offset = .error e) ∨
    ∃ a b, s.assign target key v offset = .ok a ∧ t.assign target other v offset = .ok b ∧
      agree a b := by
  cases target with
  | store =>
    unfold Store.assign expectObject
    cases v.isRaw with
    | true => exact .inl ⟨_,rfl,rfl⟩
    | false =>
      cases held with
      | key same =>
        have kept := writes s t v near
        rw [s.setFold,same,t.setFold] at kept
        exact .inr ⟨_,_,rfl,rfl,kept⟩
      | value =>
        cases key with
        | string name => exact .inr ⟨_,_,rfl,rfl,writes name s t v near⟩
        | null | int | long | decimal | bool | boxed | array | store => exact .inl ⟨_,rfl,rfl⟩
  | null | int | long | decimal | bool | string | boxed | array => exact .inl ⟨_,rfl,rfl⟩

structure Context.Beside (agree : Store → Store → Prop) (c d : Context) : Prop where
  environment : c.environment = d.environment
  heap : c.heap = d.heap
  store : agree c.store d.store

structure Machine.Beside (agree : Store → Store → Prop) (spots : List Spot) (m n : Machine) :
    Prop where
  locals : m.locals = n.locals
  stack : StacksHold spots m.stack n.stack
  context : m.context.Beside agree n.context

abbrev Together (agree : Store → Store → Prop) (spots : List Spot) :
    StepResult → StepResult → Prop :=
  Alike Eq (Machine.Beside agree spots) fun m n => m.context.Beside agree n.context

namespace MachineM

section Rules
variable {agree : Store → Store → Prop} {spots : List Spot} {spot : Spot} {m n : Machine}
variable {limit offset : Nat}

theorem pushTogether {v w : Value} (beside : m.Beside agree spots n) (held : spot.Holds v w) :
    Together agree (spot :: spots) ((push limit offset v).run m) ((push limit offset w).run n) := by
  have height := beside.stack.sameHeight
  simp only [push,EStateM.run,height]
  split
  · exact .error rfl beside.context
  · exact .ok rfl ⟨beside.locals,.cons held beside.stack,beside.context⟩

theorem popTogether (beside : m.Beside agree (spot :: spots) n) :
    Alike spot.Holds (Machine.Beside agree spots) (fun m n => m.context.Beside agree n.context)
      ((pop offset).run m) ((pop offset).run n) := by
  obtain ⟨locals,stack,context⟩ := m
  obtain ⟨others,other,around⟩ := n
  obtain ⟨same,stacked,near⟩ := beside
  cases stacked with
  | cons top rest => exact .ok top ⟨same,rest,near⟩

theorem getTogether {f g : Machine → MachineM Unit}
    (looked : Together agree spots ((f m).run m) ((g n).run n)) :
    Together agree spots ((get >>= f).run m) ((get >>= g).run n) :=
  looked

theorem setTogether {f g : Unit → MachineM Unit} {next later : Machine}
    (changed : Together agree spots ((f ()).run next) ((g ()).run later)) :
    Together agree spots ((set next >>= f).run m) ((set later >>= g).run n) :=
  changed

theorem popValue (beside : m.Beside agree (.value :: spots) n) {after : List Spot}
    {f g : Value → MachineM Unit}
    (next : ∀ v m n, m.Beside agree spots n →
      Together agree after ((f v).run m) ((g v).run n)) :
    Together agree after ((pop offset >>= f).run m) ((pop offset >>= g).run n) := by
  refine Ends.bind (popTogether beside) ?_
  intro v w m n held beside
  cases held
  exact next v m n beside

theorem popIndexValue (beside : m.Beside agree (.value :: spots) n) {after : List Spot}
    {f : Int → MachineM Unit}
    (next : ∀ index m n, m.Beside agree spots n →
      Together agree after ((f index).run m) ((f index).run n)) :
    Together agree after ((popIndex offset >>= f).run m) ((popIndex offset >>= f).run n) := by
  have popped : Alike Eq (Machine.Beside agree spots)
      (fun m n => m.context.Beside agree n.context) ((popIndex offset).run m)
      ((popIndex offset).run n) := by
    refine Ends.bind (popTogether beside) ?_
    intro v w m n held beside
    cases held
    cases v with
    | int index => exact .ok rfl beside
    | null | long | decimal | bool | string | boxed | array | store =>
      exact .error rfl beside.context
  refine Ends.bind popped ?_
  intro index other m n same beside
  cases same
  exact next index m n beside

theorem slotTogether {i : Instruction} (beside : m.Beside agree spots n) {after : List Spot}
    {f : Nat → MachineM Unit}
    (next : ∀ slot, Together agree after ((f slot).run m) ((f slot).run n)) :
    Together agree after ((slotOf i offset >>= f).run m) ((slotOf i offset >>= f).run n) := by
  unfold slotOf
  split
  · exact next _
  · exact .error rfl beside.context

theorem accessorTogether {method : CompiledMethod} {i : Instruction}
    (beside : m.Beside agree spots n) {after : List Spot} {f : Property → MachineM Unit}
    (next : ∀ p, Together agree after ((f p).run m) ((f p).run n)) :
    Together agree after ((accessorOf method i offset >>= f).run m)
      ((accessorOf method i offset >>= f).run n) := by
  unfold accessorOf
  split
  · split
    · exact next _
    · exact .error rfl beside.context
  · exact .error rfl beside.context

end Rules

section Instructions
variable {agree : Store → Store → Prop} {spots : List Spot} {m n : Machine} {setting : Setting}
variable {offset : Nat} {i : Instruction}

theorem dupTogether (beside : m.Beside agree (.value :: spots) n) :
    Together agree (.value :: .value :: spots) ((dup setting.limit offset).run m)
      ((dup setting.limit offset).run n) := by
  obtain ⟨locals,stack,context⟩ := m
  obtain ⟨others,other,around⟩ := n
  obtain ⟨same,stacked,near⟩ := beside
  cases stacked with
  | cons top rest =>
    cases top
    exact pushTogether ⟨same,.cons (.value _) rest,near⟩ (.value _)

theorem boxTogether (beside : m.Beside agree (.value :: spots) n) :
    Together agree (.value :: spots) ((box setting.limit offset).run m)
      ((box setting.limit offset).run n) := by
  refine popValue beside ?_
  intro v m n beside
  split
  · exact pushTogether beside (.value _)
  · exact .error rfl beside.context

theorem loadLocalTogether (beside : m.Beside agree spots n) :
    Together agree (.value :: spots) ((loadLocal setting.limit offset i).run m)
      ((loadLocal setting.limit offset i).run n) := by
  refine slotTogether beside ?_
  intro slot
  obtain ⟨locals,stack,context⟩ := m
  obtain ⟨others,other,around⟩ := n
  obtain ⟨rfl,stacked,near⟩ := beside
  refine getTogether ?_
  simp only
  split
  · exact pushTogether ⟨rfl,stacked,near⟩ (.value _)
  · exact .error rfl near

theorem storeLocalTogether (beside : m.Beside agree (.value :: spots) n) :
    Together agree spots ((storeLocal setting.method offset i).run m)
      ((storeLocal setting.method offset i).run n) := by
  refine slotTogether beside ?_
  intro slot
  refine popValue beside ?_
  intro v m n beside
  cases setting.method.locals[slot]? with
  | none => exact .error rfl beside.context
  | some entry =>
    simp only
    split
    · exact .ok rfl ⟨congrArg (·.set slot v) beside.locals,beside.stack,beside.context⟩
    · exact .error rfl beside.context

theorem forceTogether (target : Scalar) (beside : m.Beside agree (.value :: spots) n) :
    Together agree (.value :: spots) ((callIntrinsic setting.limit offset (.force target)).run m)
      ((callIntrinsic setting.limit offset (.force target)).run n) := by
  refine popValue beside ?_
  intro v m n beside
  cases forceObject target v offset with
  | error e => exact .error rfl beside.context
  | ok w => exact pushTogether beside (.value w)

theorem callGetterTogether (beside : m.Beside agree spots n) :
    Together agree (.value :: spots) ((callGetter setting offset i).run m)
      ((callGetter setting offset i).run n) := by
  refine accessorTogether beside ?_
  intro p
  obtain ⟨locals,stack,context⟩ := m
  obtain ⟨others,other,around⟩ := n
  obtain ⟨same,stacked,environment,heap,near⟩ := beside
  refine getTogether ?_
  simp only at environment heap ⊢
  rw [environment,heap]
  split
  · exact pushTogether ⟨same,stacked,environment,heap,near⟩ (.value _)
  · refine setTogether ?_
    exact pushTogether ⟨same,stacked,rfl,rfl,near⟩ (.value _)

theorem callSetterTogether (beside : m.Beside agree (.value :: spots) n) :
    Together agree spots ((callSetter setting offset i).run m)
      ((callSetter setting offset i).run n) := by
  refine accessorTogether beside ?_
  intro p
  refine popValue beside ?_
  intro v m n beside
  obtain ⟨locals,stack,context⟩ := m
  obtain ⟨others,other,around⟩ := n
  obtain ⟨same,stacked,environment,heap,near⟩ := beside
  refine getTogether ?_
  simp only at environment heap ⊢
  rw [environment,heap]
  split
  · exact .ok rfl ⟨same,stacked,rfl,rfl,near⟩
  · exact .error rfl ⟨rfl,rfl,near⟩

theorem newArrayTogether (beside : m.Beside agree (.value :: spots) n) :
    Together agree (.value :: spots) ((newArray setting.limit offset i).run m)
      ((newArray setting.limit offset i).run n) := by
  unfold newArray
  split
  · refine popIndexValue beside ?_
    intro count m n beside
    by_cases negative : count < 0
    · simp only [if_pos negative]
      exact .error rfl beside.context
    · simp only [if_neg negative]
      obtain ⟨same,stacked,environment,heap,near⟩ := beside
      refine getTogether ?_
      refine setTogether ?_
      rw [heap]
      exact pushTogether ⟨same,stacked,environment,rfl,near⟩ (.value _)
  · exact .error rfl beside.context

theorem storeElementTogether (beside : m.Beside agree (.value :: .value :: .value :: spots) n) :
    Together agree spots ((storeElement offset).run m) ((storeElement offset).run n) := by
  refine popValue beside ?_
  intro v m n beside
  refine popIndexValue beside ?_
  intro index m n beside
  refine popValue beside ?_
  intro target m n beside
  cases target with
  | array id =>
    obtain ⟨same,stacked,environment,heap,near⟩ := beside
    refine getTogether ?_
    simp only
    rw [heap]
    split
    · split
      · exact .ok rfl ⟨same,stacked,environment,rfl,near⟩
      · exact .error rfl ⟨environment,heap,near⟩
    · exact .error rfl ⟨environment,heap,near⟩
  | null | int | long | decimal | bool | string | boxed | store => exact .error rfl beside.context

theorem storeGetTogether {spot : Spot} (reads : spot.Reads agree)
    (beside : m.Beside agree (spot :: .value :: spots) n) :
    Together agree (.value :: spots) ((callIntrinsic setting.limit offset .storeGet).run m)
      ((callIntrinsic setting.limit offset .storeGet).run n) := by
  refine Ends.bind (popTogether beside) ?_
  intro key other m n held beside
  refine popValue beside ?_
  intro target m n beside
  refine getTogether ?_
  simp only [held.fetchSame reads beside.context.store]
  cases n.context.store.fetch target other offset with
  | error e => exact .error rfl beside.context
  | ok v => exact pushTogether beside (.value v)

theorem storeSetTogether {spot : Spot} (writes : spot.Writes agree)
    (beside : m.Beside agree (.value :: spot :: .value :: spots) n) :
    Together agree (.value :: spots) ((callIntrinsic setting.limit offset .storeSet).run m)
      ((callIntrinsic setting.limit offset .storeSet).run n) := by
  refine popValue beside ?_
  intro v m n beside
  refine Ends.bind (popTogether beside) ?_
  intro key other m n held beside
  refine popValue beside ?_
  intro target m n beside
  refine getTogether ?_
  obtain ⟨same,stacked,environment,heap,near⟩ := beside
  rcases held.assignTogether writes near target v offset with
    ⟨e,left,right⟩ | ⟨store,changed,left,right,agreed⟩
  · simp only [left,right]
    exact .error rfl ⟨environment,heap,near⟩
  · simp only [left,right]
    change Together agree _ ((push setting.limit offset v).run (m.withStore store))
      ((push setting.limit offset v).run (n.withStore changed))
    exact pushTogether ⟨same,stacked,environment,heap,agreed⟩ (.value v)

end Instructions
end MachineM

def Instruction.takes (i : Instruction) : Nat :=
  match i.op with
  | .pushConst | .pushNull | .loadLocal | .loadArgument | .loadStore | .callGetter => 0
  | .pop | .dup | .box | .storeLocal | .callIntrinsic | .callSetter | .newArray => 1
  | .storeElement => 3

def Instruction.leaves (i : Instruction) : Nat :=
  match i.op with
  | .pop | .storeLocal | .callSetter | .storeElement => 0
  | .pushConst | .pushNull | .box | .loadLocal | .loadArgument | .loadStore | .callIntrinsic
  | .callGetter | .newArray => 1
  | .dup => 2

def Instruction.usesStore (i : Instruction) : Bool :=
  i.op = .callIntrinsic ∧
    (i.operand = some (.intrinsic .storeGet) ∨ i.operand = some (.intrinsic .storeSet))

inductive Pairs (agree : Store → Store → Prop) :
    Instruction → Instruction → List Spot → List Spot → Prop where
  | same (i) {spots} (other : i.usesStore = false) :
      Pairs agree i i (List.replicate i.takes .value ++ spots)
        (List.replicate i.leaves .value ++ spots)
  | key {a b spots} (letters : Text.fold a = Text.fold b) :
      Pairs agree (.pushConst (.string a)) (.pushConst (.string b)) spots
        (.key (Text.fold a) :: spots)
  | read {spot spots} (reads : spot.Reads agree) :
      Pairs agree (.call .storeGet) (.call .storeGet) (spot :: .value :: spots) (.value :: spots)
  | write {spot spots} (writes : spot.Writes agree) :
      Pairs agree (.call .storeSet) (.call .storeSet) (.value :: spot :: .value :: spots)
        (.value :: spots)

open MachineM in
theorem sameTogether {agree : Store → Store → Prop} {spots : List Spot} {m n : Machine}
    (setting : Setting) (offset : Nat) (i : Instruction) (other : i.usesStore = false)
    (beside : m.Beside agree (List.replicate i.takes .value ++ spots) n) :
    Together agree (List.replicate i.leaves .value ++ spots) ((step setting offset i).run m)
      ((step setting offset i).run n) := by
  obtain ⟨op,operand⟩ := i
  cases op with
  | pushConst =>
    simp only [step,pushConst]
    split
    · exact pushTogether beside (.value _)
    · exact .error rfl beside.context
  | pushNull => exact pushTogether beside (.value _)
  | pop =>
    refine popValue beside ?_
    intro v m n beside
    exact .ok rfl beside
  | dup => exact dupTogether beside
  | box => exact boxTogether beside
  | loadLocal => exact loadLocalTogether beside
  | storeLocal => exact storeLocalTogether beside
  | loadArgument =>
    simp only [step,loadArgument]
    split
    · exact pushTogether beside (.value _)
    · exact .error rfl beside.context
  | loadStore => exact pushTogether beside (.value _)
  | callIntrinsic =>
    simp only [step]
    split
    · rename_i routine
      cases routine with
      | force target => exact forceTogether target beside
      | storeGet => cases other
      | storeSet => cases other
    · exact .error rfl beside.context
  | callGetter => exact callGetterTogether beside
  | callSetter => exact callSetterTogether beside
  | newArray => exact newArrayTogether beside
  | storeElement => exact storeElementTogether beside

theorem Pairs.together {agree : Store → Store → Prop} {i j : Instruction} {before after : List Spot}
    {m n : Machine} (pairs : Pairs agree i j before after) (setting : Setting) (offset : Nat)
    (beside : m.Beside agree before n) :
    Together agree after ((step setting offset i).run m) ((step setting offset j).run n) := by
  cases pairs with
  | same i other => exact sameTogether setting offset i other beside
  | key letters => exact MachineM.pushTogether beside (.key letters)
  | read reads => exact MachineM.storeGetTogether reads beside
  | write writes => exact MachineM.storeSetTogether writes beside

/-- Instruction by instruction. Of all constants only keys may differ, in the case of
their letters, and a key is only ever taken by an access to the store. -/
inductive Parallel (agree : Store → Store → Prop) :
    List Spot → List Instruction → List Instruction → List Spot → Prop where
  | nil (spots) : Parallel agree spots [] [] spots
  | cons {i j before middle after code other} (first : Pairs agree i j before middle)
      (rest : Parallel agree middle code other after) :
      Parallel agree before (i :: code) (j :: other) after

namespace Parallel
variable {agree : Store → Store → Prop} {before middle after : List Spot}
variable {code other more others : List Instruction}

theorem append (left : Parallel agree before code other middle)
    (right : Parallel agree middle more others after) :
    Parallel agree before (code ++ more) (other ++ others) after := by
  induction left with
  | nil spots => exact right
  | cons first rest ih => exact .cons first (ih right)

theorem one {i j : Instruction} (pairs : Pairs agree i j before after) :
    Parallel agree before [i] [j] after :=
  .cons pairs (.nil after)

theorem sameLength (parallel : Parallel agree before code other after) :
    code.length = other.length := by
  induction parallel with
  | nil spots => rfl
  | cons first rest ih => simp [ih]

theorem together (parallel : Parallel agree before code other after) (setting : Setting)
    (offset : Nat) {m n : Machine} (beside : m.Beside agree before n) :
    Together agree after ((runFrom setting offset code).run m)
      ((runFrom setting offset other).run n) := by
  induction parallel generalizing offset m n with
  | nil spots => exact .ok rfl beside
  | cons first rest ih =>
    refine Ends.bind (first.together setting offset beside) ?_
    intro _ _ m n _ beside
    exact ih (offset + 1) beside

end Parallel

theorem storeLocalTypes {method other : CompiledMethod}
    (types : method.locals.map (·.type) = other.locals.map (·.type)) (offset : Nat)
    (i : Instruction) : MachineM.storeLocal method offset i = MachineM.storeLocal other offset i := by
  have same (slot : Nat) :
      (method.locals[slot]?).map (·.type) = (other.locals[slot]?).map (·.type) := by
    rw [← List.getElem?_map,types,List.getElem?_map]
  unfold MachineM.storeLocal
  congr
  funext slot
  congr
  funext v
  have found := same slot
  cases left : method.locals[slot]? <;> cases right : other.locals[slot]? <;> simp_all

theorem stepMethod {method other : CompiledMethod}
    (types : method.locals.map (·.type) = other.locals.map (·.type))
    (accessors : method.accessors = other.accessors) (host : Host) (arguments : ArrayId)
    (limit offset : Nat) (i : Instruction) :
    step ⟨host,method,arguments,limit⟩ offset i = step ⟨host,other,arguments,limit⟩ offset i := by
  obtain ⟨op,operand⟩ := i
  cases op with
  | storeLocal => simp only [step,storeLocalTypes types]
  | callGetter => simp only [step,MachineM.callGetter,MachineM.accessorOf,accessors]
  | callSetter => simp only [step,MachineM.callSetter,MachineM.accessorOf,accessors]
  | pushConst | pushNull | pop | dup | box | loadLocal | loadArgument | loadStore | callIntrinsic
  | newArray | storeElement => rfl

theorem runMethod {method other : CompiledMethod}
    (types : method.locals.map (·.type) = other.locals.map (·.type))
    (accessors : method.accessors = other.accessors) (host : Host) (arguments : ArrayId)
    (limit offset : Nat) (code : List Instruction) :
    runFrom ⟨host,method,arguments,limit⟩ offset code =
      runFrom ⟨host,other,arguments,limit⟩ offset code := by
  induction code generalizing offset with
  | nil => rfl
  | cons i rest ih =>
    simp only [runFrom,stepMethod types accessors,ih]

theorem executeTogether {agree : Store → Store → Prop} {method other : CompiledMethod}
    {last : List Spot} (locals : method.locals = other.locals)
    (accessors : method.accessors = other.accessors)
    (parallel : Parallel agree [] method.listing.instructions other.listing.instructions last)
    (plain : ∀ spot ∈ last, spot = .value) (host : Host) (limit : Nat) (arguments : List Value)
    {c d : Context} (beside : c.Beside agree d) :
    Alike Eq (Context.Beside agree) (Context.Beside agree)
      ((execute host limit method arguments).run c) ((execute host limit other arguments).run d) := by
  obtain ⟨environment,heap,near⟩ := beside
  have begun : (method.start arguments c).Beside agree [] (other.start arguments d) := by
    refine ⟨?_,.nil,environment,?_,near⟩
    · simp only [CompiledMethod.start,CompiledMethod.initialLocals,locals]
    · simp only [CompiledMethod.start,heap]
  have settings : runFrom (method.setting host limit c) 0 method.listing.instructions =
      runFrom (other.setting host limit d) 0 method.listing.instructions := by
    simp only [CompiledMethod.setting,heap,
      runMethod (congrArg (List.map (·.type)) locals) accessors]
  have ran := parallel.together (other.setting host limit d) 0 begun
  rw [CompiledMethod.executeRun,CompiledMethod.executeRun,settings]
  generalize (runFrom _ 0 method.listing.instructions).run (method.start arguments c) = left at ran ⊢
  generalize (runFrom _ 0 other.listing.instructions).run (other.start arguments d) = right at ran ⊢
  cases ran with
  | @ok _ _ m n result left =>
    have frames : (⟨method.locals.map (·.name),m.locals,m.stack⟩ : Frame) =
        ⟨other.locals.map (·.name),n.locals,n.stack⟩ := by
      rw [locals,left.locals,left.stack.same plain]
    exact .ok frames left.context
  | error fault left => exact .error fault left

end ScriptMachine
