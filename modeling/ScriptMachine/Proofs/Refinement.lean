import ScriptMachine.Proofs.ValueTyping
/-! Code that does what an evaluation does. Run from matching states the two end
alike: both finish, or both stop at the same refused write and leave the same
context behind. Code may fall short in two ways. The stack may be full, which
needs a limit smaller than the code is long; and a check of the machine may
refuse a value, which strict typing rules out. -/
namespace ScriptMachine

theorem runBindOk {ε σ α β : Type} {x : EStateM ε σ α} {s next : σ} {a : α}
    (ok : x.run s = .ok a next) (f : α → EStateM ε σ β) : (x >>= f).run s = (f a).run next := by
  simp only [EStateM.run,bind,EStateM.bind] at ok ⊢
  rw [ok]

theorem runBindError {ε σ α β : Type} {x : EStateM ε σ α} {s next : σ} {e : ε}
    (failed : x.run s = .error e next) (f : α → EStateM ε σ β) :
    (x >>= f).run s = .error e next := by
  simp only [EStateM.run,bind,EStateM.bind] at failed ⊢
  rw [failed]

theorem Effect.stackGrowth {setting : Setting} {offset : Nat} {i : Instruction} {m after : Machine}
    (effect : Effect setting offset i m (.ok () after)) :
    after.stack.length ≤ m.stack.length + 1 := by
  cases effect with
  | moved stack room grown => exact grown
  | read p reading op answered room => exact Nat.le_refl _
  | storedLocal slot v stack slotted fits room => exact Nat.le_succ_of_le room
  | storedKey name v stack object room => exact Nat.le_succ_of_le room
  | storedItem id index v stack known fits room => exact Nat.le_succ_of_le room
  | allocated element count stack room => exact Nat.le_succ_of_le room
  | wrote p v left stack op written room => exact Nat.le_succ_of_le room

theorem runGrowth {setting : Setting} {offset : Nat} {code : List Instruction} {m after : Machine}
    (room : m.stack.length ≤ setting.limit)
    (ran : (runFrom setting offset code).run m = .ok () after) :
    after.stack.length ≤ m.stack.length + code.length := by
  induction code generalizing m offset with
  | nil =>
    cases ran
    exact Nat.le_refl _
  | cons i rest ih =>
    rw [runCons] at ran
    have effect := stepEffect setting offset i m room
    cases stepped : (step setting offset i).run m with
    | error e next =>
      rw [stepped] at ran
      cases ran
    | ok u next =>
      rw [stepped] at ran effect
      have grown := effect.stackGrowth
      have inside : next.stack.length ≤ setting.limit := effect.stackRoom room
      have further := ih inside ran
      rw [List.length_cons]
      omega

structure Checked (setting : Setting) (offset : Nat) (i : Instruction) (m : Machine) (check : Prop)
    (after : Machine) : Prop where
  passes : check → (step setting offset i).run m = .ok () after
  refuses : ¬ check → ∃ expected found left,
    (step setting offset i).run m = .error (.typeMismatch expected found offset) left

section Steps
variable {setting : Setting} {offset : Nat} {m : Machine} {v : Value} {rest : List Value}

theorem Checked.ofIf {i : Instruction} {check : Prop} [Decidable check] {x : MachineM Unit}
    {left after : Machine} {expected : String} {found : Shape}
    (stepped : (step setting offset i).run m =
      (if check then x else throw (.typeMismatch expected found offset) : MachineM Unit).run left)
    (done : x.run left = .ok () after) : Checked setting offset i m check after := by
  constructor
  · intro holds
    rw [stepped,if_pos holds]
    exact done
  · intro fails
    rw [if_neg fails] at stepped
    exact ⟨expected,found,left,stepped⟩

theorem MachineM.popRun (locals : List Value) (context : Context) :
    (pop offset).run ⟨locals,v :: rest,context⟩ = .ok v ⟨locals,rest,context⟩ :=
  rfl

theorem boxStep (t : StaticType) (raw : v.isRaw = true) (top : m.stack = v :: rest)
    (room : m.stack.length ≤ setting.limit) :
    (step setting offset (.box t)).run m = .ok () (m.withStack (.boxed v :: rest)) := by
  obtain ⟨locals,stack,context⟩ := m
  cases top
  change (if v.isRaw = true then MachineM.push setting.limit offset (.boxed v)
    else throw (.typeMismatch "value type" v.shape offset) : MachineM Unit).run
      ⟨locals,rest,context⟩ = _
  rw [if_pos raw]
  exact MachineM.pushRoom (.boxed v) room

theorem forceStep (target : Scalar) (top : m.stack = v :: rest)
    (room : m.stack.length ≤ setting.limit) :
    Checked setting offset (.call (.force target)) m (v.isRaw = false)
      (m.withStack (v.convert target :: rest)) := by
  obtain ⟨locals,stack,context⟩ := m
  cases top
  have stepped : (step setting offset (.call (.force target))).run ⟨locals,v :: rest,context⟩ =
      (MonadExcept.ofExcept (forceObject target v offset) >>=
        MachineM.push setting.limit offset : MachineM Unit).run ⟨locals,rest,context⟩ := rfl
  constructor
  · intro object
    have done : forceObject target v offset = .ok (v.convert target) := by
      simp [forceObject,expectObject,object,bind,Except.bind,pure,Except.pure]
    rw [stepped,done]
    exact MachineM.pushRoom (v.convert target) room
  · intro unfit
    have raw : v.isRaw = true := by simpa using unfit
    have refused : forceObject target v offset =
        .error (.typeMismatch "object" v.shape offset) := by
      simp [forceObject,expectObject,raw,bind,Except.bind]
    rw [stepped,refused]
    exact ⟨_,_,_,rfl⟩

theorem popStep (top : m.stack = v :: rest) :
    (step setting offset .pop).run m = .ok () (m.withStack rest) := by
  obtain ⟨locals,stack,context⟩ := m
  cases top
  rfl

theorem dupStep (top : m.stack = v :: rest) :
    (step setting offset .dup).run m = (MachineM.push setting.limit offset v).run m := by
  obtain ⟨locals,stack,context⟩ := m
  cases top
  rfl

theorem loadLocalStep {slot : Nat} (held : m.locals[slot]? = some v) :
    (step setting offset (.loadLocal slot)).run m =
      (MachineM.push setting.limit offset v).run m := by
  simp only [step,Instruction.loadLocal,MachineM.loadLocal,MachineM.slotOf,EStateM.run_bind,
    EStateM.run_pure,EStateM.run_get,held]

theorem storeLocalStep {slot : Nat} {entry : Local}
    (slotted : setting.method.locals[slot]? = some entry) (top : m.stack = v :: rest) :
    Checked setting offset (.storeLocal slot) m (v.fits entry.type = true)
      ((m.withStack rest).withLocal slot v) := by
  obtain ⟨locals,stack,context⟩ := m
  cases top
  have stepped : (step setting offset (.storeLocal slot)).run ⟨locals,v :: rest,context⟩ =
      (if v.fits entry.type then modify fun m => { m with locals := m.locals.set slot v }
      else throw (.typeMismatch entry.type.name v.shape offset) : MachineM Unit).run
        ⟨locals,rest,context⟩ := by
    simp only [step,Instruction.storeLocal,MachineM.storeLocal,MachineM.slotOf,EStateM.run_bind,
      EStateM.run_pure,MachineM.popRun,slotted]
  exact .ofIf stepped rfl

theorem storeGetStep {key : Value} (top : m.stack = key :: .store :: rest)
    (room : m.stack.length ≤ setting.limit) :
    Checked setting offset (.call .storeGet) m (key.shape = .string)
      (m.withStack (m.context.store.get key.toText :: rest)) := by
  obtain ⟨locals,stack,context⟩ := m
  cases top
  cases key with
  | string name =>
    exact ⟨fun _ => MachineM.pushRoom (context.store.get name) (Nat.le_of_succ_le room),
      fun other => absurd rfl other⟩
  | null | int | long | decimal | bool | boxed | array | store =>
    refine ⟨?_,fun _ => ⟨_,_,_,rfl⟩⟩
    intro text
    cases text

theorem assignDone {store : Store} {key : Value} (object : v.isRaw = false)
    (text : key.shape = .string) :
    store.assign .store key v offset = .ok (store.set key.toText v) := by
  cases key with
  | string name =>
    simp only [Store.assign,expectStore,expectObject,object,bind,Except.bind]
    rfl
  | null | int | long | decimal | bool | boxed | array | store => cases text

theorem assignRefused {store : Store} {key : Value}
    (unfit : ¬ (v.isRaw = false ∧ key.shape = .string)) :
    ∃ expected found,
      store.assign .store key v offset = .error (.typeMismatch expected found offset) := by
  by_cases raw : v.isRaw = true
  · exact ⟨"object",v.shape,by simp [Store.assign,expectStore,expectObject,raw,bind,Except.bind]⟩
  · have object : v.isRaw = false := by simpa using raw
    simp only [Store.assign,expectStore,expectObject,object,bind,Except.bind]
    cases key with
    | string name => exact absurd ⟨object,rfl⟩ unfit
    | null | int | long | decimal | bool | boxed | array | store => exact ⟨_,_,rfl⟩

theorem storeSetStep {key : Value} (top : m.stack = v :: key :: .store :: rest)
    (room : m.stack.length ≤ setting.limit) :
    Checked setting offset (.call .storeSet) m (v.isRaw = false ∧ key.shape = .string)
      ((m.withStack (v :: rest)).withStore (m.context.store.set key.toText v)) := by
  obtain ⟨locals,stack,context⟩ := m
  cases top
  have stepped : (step setting offset (.call .storeSet)).run
      ⟨locals,v :: key :: .store :: rest,context⟩ =
      (MonadExcept.ofExcept (context.store.assign .store key v offset) >>= fun store =>
        set (⟨locals,rest,{ context with store := store }⟩ : Machine) >>= fun _ =>
          MachineM.push setting.limit offset v : MachineM Unit).run ⟨locals,rest,context⟩ := rfl
  constructor
  · rintro ⟨object,text⟩
    rw [stepped,assignDone object text]
    exact MachineM.pushRoom v (Nat.le_of_succ_le (Nat.le_of_succ_le room))
  · intro unfit
    obtain ⟨expected,found,refused⟩ := assignRefused unfit
    rw [stepped,refused]
    exact ⟨_,_,_,rfl⟩

theorem storeGetText {name : String} (top : m.stack = .string name :: .store :: rest)
    (room : m.stack.length ≤ setting.limit) :
    (step setting offset (.call .storeGet)).run m =
      .ok () (m.withStack (m.context.store.get name :: rest)) := by
  have read : (step setting offset (.call .storeGet)).run m = _ := (storeGetStep top room).passes rfl
  rwa [show (Value.string name).toText = name from rfl] at read

theorem storeSetText {name : String} (top : m.stack = v :: .string name :: .store :: rest)
    (object : v.isRaw = false) (room : m.stack.length ≤ setting.limit) :
    (step setting offset (.call .storeSet)).run m =
      .ok () ((m.withStack (v :: rest)).withStore (m.context.store.set name v)) := by
  have written : (step setting offset (.call .storeSet)).run m = _ :=
    (storeSetStep top room).passes ⟨object,rfl⟩
  rwa [show (Value.string name).toText = name from rfl] at written

theorem newArrayStep {element : StaticType} {n : Int32} {count : Nat} (counted : n.toInt = count)
    (top : m.stack = .int n :: rest) (room : m.stack.length ≤ setting.limit) :
    (step setting offset (.newArray element)).run m =
      .ok () ((m.withStack (.array m.context.heap.size :: rest)).withHeap
        (m.context.heap.alloc ⟨element,Array.replicate count element.initial⟩).2) := by
  obtain ⟨locals,stack,context⟩ := m
  cases top
  have natural : ¬ n.toInt < 0 := by omega
  have same : n.toInt.toNat = count := by omega
  simp only [step,Instruction.newArray,MachineM.newArray,MachineM.popIndex,MachineM.pop,
    EStateM.run,bind,EStateM.bind,pure,EStateM.pure,if_neg natural,same]
  exact MachineM.pushRoom _ room

theorem storeElementStep {id : ArrayId} {cell : ArrayCell} {n : Int32} {index : Nat}
    (counted : n.toInt = index) (known : m.context.heap.cell? id = some cell)
    (below : index < cell.items.size) (top : m.stack = v :: .int n :: .array id :: rest) :
    Checked setting offset .storeElement m (v.fits cell.element = true)
      ((m.withStack rest).withHeap (m.context.heap.setItem id index v)) := by
  obtain ⟨locals,stack,context⟩ := m
  cases top
  have inside : 0 ≤ n.toInt ∧ n.toInt < (cell.items.size : Int) := by omega
  have same : n.toInt.toNat = index := by omega
  have stepped : (step setting offset .storeElement).run
        ⟨locals,v :: .int n :: .array id :: rest,context⟩ =
      (if v.fits cell.element then
        set (⟨locals,rest,{ context with heap := context.heap.setItem id index v }⟩ : Machine)
      else throw (.typeMismatch cell.element.name v.shape offset) : MachineM Unit).run
        ⟨locals,rest,context⟩ := by
    simp only [step,Instruction.storeElement,MachineM.storeElement,MachineM.popIndex,
      EStateM.run_bind,MachineM.popRun,EStateM.run_pure,EStateM.run_get,known,Option.getD_some,
      if_pos inside,same]
  exact .ofIf stepped rfl

theorem accessorOfKnown {index : Nat} {p : Property} {i : Instruction}
    (operand : i.operand = some (.accessor index))
    (known : setting.method.accessors[index]? = some p) :
    MachineM.accessorOf setting.method i offset = pure p := by
  simp only [MachineM.accessorOf,operand,known]

theorem callGetterStep {index : Nat} {p : Property}
    (known : setting.method.accessors[index]? = some p) :
    (step setting offset (.callGetter index)).run m =
      match p.read setting.host m.context.environment m.context.heap with
      | none => (MachineM.push setting.limit offset .null).run m
      | some reading => (MachineM.push setting.limit offset reading.value).run
          (m.withHeap reading.heap) := by
  change (MachineM.callGetter setting offset (.callGetter index)).run m = _
  unfold MachineM.callGetter
  rw [accessorOfKnown rfl known]
  change (match p.read setting.host m.context.environment m.context.heap with
    | none => MachineM.push setting.limit offset .null
    | some reading =>
      set (m.withHeap reading.heap) >>= fun _ =>
        MachineM.push setting.limit offset reading.value : MachineM Unit).run m = _
  cases p.read setting.host m.context.environment m.context.heap <;> rfl

theorem callSetterStep {index : Nat} {p : Property}
    (known : setting.method.accessors[index]? = some p) (top : m.stack = v :: rest) :
    (step setting offset (.callSetter index)).run m =
      match (p.write setting.host v).run m.surroundings with
      | .ok _ after => .ok () ((m.withStack rest).withSurroundings after)
      | .error e after => .error (.native e) ((m.withStack rest).withSurroundings after) := by
  obtain ⟨locals,stack,context⟩ := m
  cases top
  change (MachineM.callSetter setting offset (.callSetter index)).run _ = _
  unfold MachineM.callSetter
  rw [accessorOfKnown rfl known]
  change (match (p.write setting.host v).run ⟨context.environment,context.heap⟩ with
    | .ok _ after => set (⟨locals,rest,context.withSurroundings after⟩ : Machine)
    | .error e after =>
      set (⟨locals,rest,context.withSurroundings after⟩ : Machine) >>= fun _ =>
        throw (.native e) : MachineM Unit).run ⟨locals,rest,context⟩ = _
  simp only [Machine.surroundings]
  cases (p.write setting.host v).run ⟨context.environment,context.heap⟩ <;> rfl

end Steps

inductive Refines {α : Type} (strict : Prop) (setting : Setting) (offset : Nat)
    (code : List Instruction) (x : EvalM α) (m : Machine) (s : EvalState)
    (post : α → EvalState → Machine → Prop) : Prop where
  | done (a next after) (ran : (runFrom setting offset code).run m = .ok () after)
      (evaluated : x.run s = .ok a next) (holds : post a next after)
  | failed (e next after) (ran : (runFrom setting offset code).run m = .error (.native e) after)
      (evaluated : x.run s = .error (.native e) next) (same : after.context = next.context)
  | overflow (place after)
      (ran : (runFrom setting offset code).run m =
        .error (.stackOverflow place setting.limit) after)
      (short : setting.limit < m.stack.length + code.length)
  | mismatch (expected found place after)
      (ran : (runFrom setting offset code).run m =
        .error (.typeMismatch expected found place) after)
      (loose : ¬ strict)

namespace Refines
variable {α β : Type} {strict : Prop} {setting : Setting} {offset : Nat} {i : Instruction}
variable {code first second : List Instruction} {x : EvalM α} {f : α → EvalM β}
variable {m : Machine} {s : EvalState} {middle : α → EvalState → Machine → Prop}

theorem append {post : β → EvalState → Machine → Prop} (room : m.stack.length ≤ setting.limit)
    (left : Refines strict setting offset first x m s middle)
    (right : ∀ a next after, after.stack.length ≤ setting.limit → middle a next after →
      Refines strict setting (offset + first.length) second (f a) after next post) :
    Refines strict setting offset (first ++ second) (x >>= f) m s post := by
  have longer : first.length + second.length = (first ++ second).length := by simp
  cases left with
  | failed e next after ran evaluated same =>
    refine .failed e next after ?_ (runBindError evaluated f) same
    rw [runAppend,ran]
  | overflow place after ran short =>
    refine .overflow place after ?_ (by omega)
    rw [runAppend,ran]
  | mismatch expected found place after ran loose =>
    refine .mismatch expected found place after ?_ loose
    rw [runAppend,ran]
  | done a next after ran evaluated holds =>
    -- one value more for an instruction at most: a stack that fills up in the second part
    -- has a limit below the length of the whole
    have grown := runGrowth room ran
    have inside := runRoom room offset first
    rw [ran] at inside
    cases right a next after inside holds with
    | done b last final more also ends =>
      refine .done b last final ?_ ((runBindOk evaluated f).trans also) ends
      rw [runAppend,ran]
      exact more
    | failed e last final more also same =>
      refine .failed e last final ?_ ((runBindOk evaluated f).trans also) same
      rw [runAppend,ran]
      exact more
    | overflow place final more short =>
      refine .overflow place final ?_ (by omega)
      rw [runAppend,ran]
      exact more
    | mismatch expected found place final more loose =>
      refine .mismatch expected found place final ?_ loose
      rw [runAppend,ran]
      exact more

theorem appendCode {post : α → EvalState → Machine → Prop} (room : m.stack.length ≤ setting.limit)
    (left : Refines strict setting offset first x m s middle)
    (right : ∀ a next after, after.stack.length ≤ setting.limit → middle a next after →
      Refines strict setting (offset + first.length) second (pure a) after next post) :
    Refines strict setting offset (first ++ second) x m s post := by
  have whole := append room left right
  rw [bind_pure] at whole
  exact whole

variable {post : α → EvalState → Machine → Prop}

theorem weaken (refines : Refines strict setting offset code x m s middle)
    (weaker : ∀ a next after, middle a next after → post a next after) :
    Refines strict setting offset code x m s post := by
  cases refines with
  | done a next after ran evaluated holds =>
    exact .done a next after ran evaluated (weaker a next after holds)
  | failed e next after ran evaluated same => exact .failed e next after ran evaluated same
  | overflow place after ran short => exact .overflow place after ran short
  | mismatch expected found place after ran loose =>
    exact .mismatch expected found place after ran loose

theorem nil {a : α} {next : EvalState} (evaluated : x.run s = .ok a next)
    (holds : post a next m) : Refines strict setting offset [] x m s post :=
  .done a next m rfl evaluated holds

theorem evaluate {post : β → EvalState → Machine → Prop} {a : α} {next : EvalState}
    (evaluated : x.run s = .ok a next)
    (rest : Refines strict setting offset code (f a) m next post) :
    Refines strict setting offset code (x >>= f) m s post := by
  have started := runBindOk evaluated f
  cases rest with
  | done b last after ran also holds => exact .done b last after ran (started.trans also) holds
  | failed e last after ran also same => exact .failed e last after ran (started.trans also) same
  | overflow place after ran short => exact .overflow place after ran short
  | mismatch expected found place after ran loose =>
    exact .mismatch expected found place after ran loose

theorem andThen {post : β → EvalState → Machine → Prop}
    (left : Refines strict setting offset code x m s middle)
    (right : ∀ a next after, middle a next after →
      ∃ b last, (f a).run next = .ok b last ∧ post b last after) :
    Refines strict setting offset code (x >>= f) m s post := by
  cases left with
  | done a next after ran evaluated holds =>
    obtain ⟨b,last,also,ends⟩ := right a next after holds
    exact .done b last after ran ((runBindOk evaluated f).trans also) ends
  | failed e next after ran evaluated same =>
    exact .failed e next after ran (runBindError evaluated f) same
  | overflow place after ran short => exact .overflow place after ran short
  | mismatch expected found place after ran loose =>
    exact .mismatch expected found place after ran loose

theorem cons {after : Machine} (room : m.stack.length ≤ setting.limit)
    (stepped : (step setting offset i).run m = .ok () after)
    (rest : after.stack.length ≤ setting.limit →
      Refines strict setting (offset + 1) code x after s post) :
    Refines strict setting offset (i :: code) x m s post := by
  have one : Refines strict setting offset [i] (pure () : EvalM Unit) m s
      (fun _ next reached => next = s ∧ reached = after) := by
    refine .done () s after ?_ rfl ⟨rfl,rfl⟩
    rw [runCons,stepped]
    rfl
  have whole : Refines strict setting offset ([i] ++ code) (pure () >>= fun _ => x) m s post := by
    refine append room one ?_
    rintro u next reached inside ⟨rfl,rfl⟩
    exact rest inside
  rw [pure_bind] at whole
  exact whole

theorem checked {check : Prop} {after : Machine} (room : m.stack.length ≤ setting.limit)
    (stepped : Checked setting offset i m check after) (trusted : strict → check)
    (rest : check → after.stack.length ≤ setting.limit →
      Refines strict setting (offset + 1) code x after s post) :
    Refines strict setting offset (i :: code) x m s post := by
  by_cases holds : check
  · exact cons room (stepped.passes holds) (rest holds)
  · obtain ⟨expected,found,left,refused⟩ := stepped.refuses holds
    refine .mismatch expected found offset left ?_ fun strict => holds (trusted strict)
    rw [runCons,refused]

theorem push {v : Value} {ready : Machine} (room : m.stack.length ≤ setting.limit)
    (pushes : (step setting offset i).run m = (MachineM.push setting.limit offset v).run ready)
    (kept : ready.stack = m.stack)
    (rest : (ready.withStack (v :: m.stack)).stack.length ≤ setting.limit →
      Refines strict setting (offset + 1) code x (ready.withStack (v :: m.stack)) s post) :
    Refines strict setting offset (i :: code) x m s post := by
  by_cases full : m.stack.length < setting.limit
  · refine cons room ?_ rest
    rw [pushes,MachineM.pushRoom v (by rw [kept]; exact full),kept]
  · refine .overflow offset ready ?_ (by rw [List.length_cons]; omega)
    rw [runCons,pushes]
    simp only [MachineM.push,EStateM.run,kept]
    rw [if_pos (by omega)]

end Refines
end ScriptMachine
