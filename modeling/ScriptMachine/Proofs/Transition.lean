import ScriptMachine.Proofs.Lowering
/-! What an instruction that succeeds has done: which operands it took, what it
checked about them and what it left. An operand that the instruction does not
look at may be anything. What one that fails has left is said in less detail. -/
namespace ScriptMachine

inductive Moves (setting : Setting) (m : Machine) : Instruction → Machine → Prop where
  | pushConst (c : Constant) :
      Moves setting m ⟨.pushConst,some (.constant c)⟩ (m.withStack (c.value :: m.stack))
  | pushNull (operand) : Moves setting m ⟨.pushNull,operand⟩ (m.withStack (.null :: m.stack))
  | pop (operand) {v rest} (top : m.stack = v :: rest) :
      Moves setting m ⟨.pop,operand⟩ (m.withStack rest)
  | dup (operand) {v rest} (top : m.stack = v :: rest) :
      Moves setting m ⟨.dup,operand⟩ (m.withStack (v :: m.stack))
  | box (operand) {v rest} (top : m.stack = v :: rest) (raw : v.isRaw = true) :
      Moves setting m ⟨.box,operand⟩ (m.withStack (.boxed v :: rest))
  | loadLocal (slot) {v} (held : m.locals[slot]? = some v) :
      Moves setting m ⟨.loadLocal,some (.slot slot)⟩ (m.withStack (v :: m.stack))
  | storeLocal (slot) {v rest entry} (top : m.stack = v :: rest)
      (slotted : setting.method.locals[slot]? = some entry) (fits : v.fits entry.type = true) :
      Moves setting m ⟨.storeLocal,some (.slot slot)⟩ ((m.withStack rest).withLocal slot v)
  | loadArgument (index) :
      Moves setting m ⟨.loadArgument,some (.argument index)⟩
        (m.withStack (.array setting.arguments :: m.stack))
  | loadStore (operand) : Moves setting m ⟨.loadStore,operand⟩ (m.withStack (.store :: m.stack))
  | force (target) {v rest} (top : m.stack = v :: rest) (object : v.isRaw = false) :
      Moves setting m ⟨.callIntrinsic,some (.intrinsic (.force target))⟩
        (m.withStack (v.convert target :: rest))
  | storeGet {key rest} (top : m.stack = .string key :: .store :: rest) :
      Moves setting m ⟨.callIntrinsic,some (.intrinsic .storeGet)⟩
        (m.withStack (m.context.store.get key :: rest))
  | storeSet {v key rest} (top : m.stack = v :: .string key :: .store :: rest)
      (object : v.isRaw = false) :
      Moves setting m ⟨.callIntrinsic,some (.intrinsic .storeSet)⟩
        ((m.withStack (v :: rest)).withStore (m.context.store.set key v))
  | readNothing (index) {p} (known : setting.method.accessors[index]? = some p)
      (unread : p.read setting.host m.context.environment m.context.heap = none) :
      Moves setting m ⟨.callGetter,some (.accessor index)⟩ (m.withStack (.null :: m.stack))
  | read (index) {p reading} (known : setting.method.accessors[index]? = some p)
      (answered : p.read setting.host m.context.environment m.context.heap = some reading) :
      Moves setting m ⟨.callGetter,some (.accessor index)⟩
        ((m.withStack (reading.value :: m.stack)).withHeap reading.heap)
  | wrote (index) {p v rest after} (known : setting.method.accessors[index]? = some p)
      (top : m.stack = v :: rest)
      (written : (p.write setting.host v).run m.surroundings = .ok () after) :
      Moves setting m ⟨.callSetter,some (.accessor index)⟩
        ((m.withStack rest).withSurroundings after)
  | newArray (element) {n : Int32} {rest} (top : m.stack = .int n :: rest)
      (natural : 0 ≤ n.toInt) :
      Moves setting m ⟨.newArray,some (.type element)⟩
        ((m.withStack (.array m.context.heap.size :: rest)).withHeap
          (m.context.heap.alloc ⟨element,Array.replicate n.toInt.toNat element.initial⟩).2)
  | storeElement (operand) {v rest id cell} {n : Int32}
      (top : m.stack = v :: .int n :: .array id :: rest)
      (known : m.context.heap.cell? id = some cell) (fits : v.fits cell.element = true) :
      Moves setting m ⟨.storeElement,operand⟩
        ((m.withStack rest).withHeap (m.context.heap.setItem id n.toInt.toNat v))

namespace MachineM
variable {limit offset : Nat} {m next : Machine} {v : Value}

theorem pushOk (ok : (push limit offset v).run m = .ok () next) :
    m.stack.length < limit ∧ next = m.withStack (v :: m.stack) := by
  by_cases room : m.stack.length < limit
  · rw [pushRoom v room] at ok
    cases ok
    exact ⟨room,rfl⟩
  · simp only [push,EStateM.run] at ok
    rw [if_pos (by omega)] at ok
    cases ok

theorem popOk (ok : (pop offset).run m = .ok v next) :
    ∃ rest, m.stack = v :: rest ∧ next = m.withStack rest := by
  obtain ⟨locals,stack,context⟩ := m
  cases stack with
  | nil => cases ok
  | cons w rest =>
    cases ok
    exact ⟨rest,rfl,rfl⟩

theorem popIndexOk {index : Int} (ok : (popIndex offset).run m = .ok index next) :
    ∃ n rest, m.stack = .int n :: rest ∧ index = n.toInt ∧ next = m.withStack rest := by
  obtain ⟨v,middle,popped,checked⟩ := bindOk ok
  obtain ⟨rest,top,rfl⟩ := popOk popped
  cases v with
  | int n =>
    cases checked
    exact ⟨n,rest,top,rfl,rfl⟩
  | null | long | decimal | bool | string | boxed | array | store => cases checked

theorem ofExceptOk {α : Type} {x : Except RuntimeError α} {a : α}
    (ok : (MonadExcept.ofExcept x : MachineM α).run m = .ok a next) : x = .ok a ∧ m = next := by
  cases x with
  | error e => cases ok
  | ok b =>
    cases ok
    exact ⟨rfl,rfl⟩

theorem accessorOk {method : CompiledMethod} {i : Instruction} {p : Property}
    (ok : (accessorOf method i offset).run m = .ok p next) :
    ∃ index, i.operand = some (.accessor index) ∧ method.accessors[index]? = some p ∧
      m = next := by
  unfold accessorOf at ok
  split at ok
  · rename_i index operand
    split at ok
    · rename_i q known
      cases ok
      exact ⟨index,operand,known,rfl⟩
    · cases ok
  · cases ok

theorem slotOk {i : Instruction} {slot : Nat} (ok : (slotOf i offset).run m = .ok slot next) :
    i.operand = some (.slot slot) ∧ m = next := by
  unfold slotOf at ok
  split at ok
  · rename_i n operand
    cases ok
    exact ⟨operand,rfl⟩
  · cases ok

end MachineM

theorem forceOk {target : Scalar} {v w : Value} {offset : Nat}
    (ok : forceObject target v offset = .ok w) : v.isRaw = false ∧ w = v.convert target := by
  cases v <;> cases ok <;> exact ⟨rfl,rfl⟩

theorem fetchOk {store : Store} {target key v : Value} {offset : Nat}
    (ok : store.fetch target key offset = .ok v) :
    target = .store ∧ ∃ name, key = .string name ∧ v = store.get name := by
  cases target <;> cases key <;> cases ok
  exact ⟨rfl,_,rfl,rfl⟩

namespace MachineM
variable {setting : Setting} {offset : Nat} {m next : Machine}

theorem loadLocalMoves {operand : Option Operand}
    (ok : (loadLocal setting.limit offset ⟨.loadLocal,operand⟩).run m = .ok () next) :
    Moves setting m ⟨.loadLocal,operand⟩ next := by
  obtain ⟨slot,same,slotted,rest⟩ := bindOk ok
  obtain ⟨rfl,rfl⟩ := slotOk slotted
  obtain ⟨machine,still,got,found⟩ := bindOk rest
  cases got
  cases held : m.locals[slot]? with
  | none =>
    simp only [held] at found
    cases found
  | some v =>
    simp only [held] at found
    obtain ⟨room,rfl⟩ := pushOk found
    exact .loadLocal slot held

theorem storeLocalMoves {operand : Option Operand}
    (ok : (storeLocal setting.method offset ⟨.storeLocal,operand⟩).run m = .ok () next) :
    Moves setting m ⟨.storeLocal,operand⟩ next := by
  obtain ⟨slot,same,slotted,rest⟩ := bindOk ok
  obtain ⟨rfl,rfl⟩ := slotOk slotted
  obtain ⟨v,middle,popped,stored⟩ := bindOk rest
  obtain ⟨below,top,rfl⟩ := popOk popped
  cases declared : setting.method.locals[slot]? with
  | none =>
    simp only [declared] at stored
    cases stored
  | some entry =>
    simp only [declared] at stored
    split at stored
    · rename_i fits
      cases stored
      exact .storeLocal slot top declared fits
    · cases stored

theorem callIntrinsicMoves {routine : Intrinsic}
    (ok : (callIntrinsic setting.limit offset routine).run m = .ok () next) :
    Moves setting m ⟨.callIntrinsic,some (.intrinsic routine)⟩ next := by
  cases routine with
  | force target =>
    obtain ⟨v,middle,popped,rest⟩ := bindOk ok
    obtain ⟨below,top,rfl⟩ := popOk popped
    obtain ⟨w,still,forced,pushed⟩ := bindOk rest
    obtain ⟨done,rfl⟩ := ofExceptOk forced
    obtain ⟨object,rfl⟩ := forceOk done
    obtain ⟨room,rfl⟩ := pushOk pushed
    exact .force target top object
  | storeGet =>
    obtain ⟨key,middle,popped,more⟩ := bindOk ok
    obtain ⟨below,top,rfl⟩ := popOk popped
    obtain ⟨target,lower,taken,rest⟩ := bindOk more
    obtain ⟨least,under,rfl⟩ := popOk taken
    obtain ⟨machine,still,got,found⟩ := bindOk rest
    cases got
    obtain ⟨w,same,fetched,pushed⟩ := bindOk found
    obtain ⟨done,rfl⟩ := ofExceptOk fetched
    obtain ⟨rfl,name,rfl,rfl⟩ := fetchOk done
    obtain ⟨room,rfl⟩ := pushOk pushed
    cases under
    exact .storeGet top
  | storeSet =>
    obtain ⟨v,middle,popped,more⟩ := bindOk ok
    obtain ⟨below,top,rfl⟩ := popOk popped
    obtain ⟨key,lower,taken,others⟩ := bindOk more
    obtain ⟨least,under,rfl⟩ := popOk taken
    obtain ⟨target,low,last,rest⟩ := bindOk others
    obtain ⟨bottom,deep,rfl⟩ := popOk last
    obtain ⟨machine,still,got,found⟩ := bindOk rest
    cases got
    obtain ⟨store,same,assigned,more⟩ := bindOk found
    obtain ⟨done,rfl⟩ := ofExceptOk assigned
    obtain ⟨rfl,object,name,rfl,rfl⟩ := assignOk done
    obtain ⟨u,changed,set,pushed⟩ := bindOk more
    cases set
    obtain ⟨room,rfl⟩ := pushOk pushed
    cases under
    cases deep
    exact .storeSet top object

theorem callGetterMoves {operand : Option Operand}
    (ok : (callGetter setting offset ⟨.callGetter,operand⟩).run m = .ok () next) :
    Moves setting m ⟨.callGetter,operand⟩ next := by
  obtain ⟨p,same,found,rest⟩ := bindOk ok
  obtain ⟨index,rfl,known,rfl⟩ := accessorOk found
  obtain ⟨machine,still,got,asked⟩ := bindOk rest
  cases got
  cases answered : p.read setting.host m.context.environment m.context.heap with
  | none =>
    simp only [answered] at asked
    obtain ⟨room,rfl⟩ := pushOk asked
    exact .readNothing index known answered
  | some reading =>
    simp only [answered] at asked
    obtain ⟨u,changed,set,pushed⟩ := bindOk asked
    cases set
    obtain ⟨room,rfl⟩ := pushOk pushed
    exact .read index known answered

theorem callSetterMoves {operand : Option Operand}
    (ok : (callSetter setting offset ⟨.callSetter,operand⟩).run m = .ok () next) :
    Moves setting m ⟨.callSetter,operand⟩ next := by
  obtain ⟨p,same,found,rest⟩ := bindOk ok
  obtain ⟨index,rfl,known,rfl⟩ := accessorOk found
  obtain ⟨v,middle,popped,more⟩ := bindOk rest
  obtain ⟨below,top,rfl⟩ := popOk popped
  obtain ⟨machine,still,got,called⟩ := bindOk more
  cases got
  split at called
  · rename_i u after written
    cases called
    exact .wrote index known top written
  · obtain ⟨u,changed,set,thrown⟩ := bindOk called
    cases thrown

theorem newArrayMoves {operand : Option Operand}
    (ok : (newArray setting.limit offset ⟨.newArray,operand⟩).run m = .ok () next) :
    Moves setting m ⟨.newArray,operand⟩ next := by
  unfold newArray at ok
  split at ok
  · rename_i element operand
    obtain rfl := operand
    obtain ⟨count,middle,popped,rest⟩ := bindOk ok
    obtain ⟨n,below,top,rfl,rfl⟩ := popIndexOk popped
    by_cases negative : n.toInt < 0
    · simp only [if_pos negative] at rest
      obtain ⟨u,changed,thrown,never⟩ := bindOk rest
      cases thrown
    · simp only [if_neg negative] at rest
      obtain ⟨machine,still,got,made⟩ := bindOk rest
      cases got
      obtain ⟨u,changed,set,pushed⟩ := bindOk made
      cases set
      obtain ⟨room,rfl⟩ := pushOk pushed
      exact .newArray element top (by omega)
  · cases ok

theorem storeElementMoves {operand : Option Operand}
    (ok : (storeElement offset).run m = .ok () next) :
    Moves setting m ⟨.storeElement,operand⟩ next := by
  obtain ⟨v,middle,popped,more⟩ := bindOk ok
  obtain ⟨below,top,rfl⟩ := popOk popped
  obtain ⟨index,lower,taken,others⟩ := bindOk more
  obtain ⟨n,least,under,rfl,rfl⟩ := popIndexOk taken
  obtain ⟨target,low,last,rest⟩ := bindOk others
  obtain ⟨bottom,deep,rfl⟩ := popOk last
  cases under
  cases deep
  cases target with
  | array id =>
    obtain ⟨machine,still,got,stored⟩ := bindOk rest
    cases got
    simp only at stored
    split at stored
    · rename_i fits
      split at stored
      · rename_i bounds
        cases stored
        cases known : m.context.heap.cell? id with
        | none =>
          -- an unknown array counts as empty, so that no index is within it
          simp [Machine.withStack,known] at bounds
          omega
        | some cell =>
          simp only [Machine.withStack,known,Option.getD_some] at fits
          exact .storeElement operand top known fits
      · cases stored
    · cases stored
  | null | int | long | decimal | bool | string | boxed | store => cases rest

end MachineM

open MachineM in
theorem stepMoves {setting : Setting} {offset : Nat} {i : Instruction} {m next : Machine}
    (ok : (step setting offset i).run m = .ok () next) : Moves setting m i next := by
  obtain ⟨op,operand⟩ := i
  cases op with
  | pushConst =>
    simp only [step,pushConst] at ok
    split at ok
    · rename_i c
      obtain ⟨room,rfl⟩ := pushOk ok
      exact .pushConst c
    · cases ok
  | pushNull =>
    obtain ⟨room,rfl⟩ := pushOk ok
    exact .pushNull operand
  | pop =>
    obtain ⟨v,middle,popped,done⟩ := bindOk ok
    obtain ⟨rest,top,rfl⟩ := popOk popped
    cases done
    exact .pop operand top
  | dup =>
    obtain ⟨machine,still,got,copied⟩ := bindOk ok
    cases got
    cases top : m.stack with
    | nil =>
      simp only [top] at copied
      cases copied
    | cons v rest =>
      simp only [top] at copied
      obtain ⟨room,rfl⟩ := pushOk copied
      exact .dup operand top
  | box =>
    obtain ⟨v,middle,popped,checked⟩ := bindOk ok
    obtain ⟨rest,top,rfl⟩ := popOk popped
    split at checked
    · rename_i raw
      obtain ⟨room,rfl⟩ := pushOk checked
      exact .box operand top raw
    · cases checked
  | loadLocal => exact loadLocalMoves ok
  | storeLocal => exact storeLocalMoves ok
  | loadArgument =>
    simp only [step,loadArgument] at ok
    split at ok
    · rename_i index
      obtain ⟨room,rfl⟩ := pushOk ok
      exact .loadArgument index
    · cases ok
  | loadStore =>
    obtain ⟨room,rfl⟩ := pushOk ok
    exact .loadStore operand
  | callIntrinsic =>
    simp only [step] at ok
    split at ok
    · exact callIntrinsicMoves ok
    · cases ok
  | callGetter => exact callGetterMoves ok
  | callSetter => exact callSetterMoves ok
  | newArray => exact newArrayMoves ok
  | storeElement => exact storeElementMoves ok

inductive Fails (setting : Setting) (i : Instruction) (m : Machine) : Machine → Prop where
  | refused (stack) : Fails setting i m (m.withStack stack)
  | read {p : Property} {reading}
      (answered : p.read setting.host m.context.environment m.context.heap = some reading) :
      Fails setting i m (m.withHeap reading.heap)
  | wrote {p : Property} {v rest e after} (op : i.op = .callSetter) (top : m.stack = v :: rest)
      (failed : (p.write setting.host v).run m.surroundings = .error e after) :
      Fails setting i m ((m.withStack rest).withSurroundings after)

namespace MachineM
variable {setting : Setting} {offset : Nat} {i : Instruction} {m next : Machine} {e : RuntimeError}

theorem pushFailed {limit : Nat} {v : Value} (failed : (push limit offset v).run m = .error e next) :
    next = m := by
  simp only [push,EStateM.run] at failed
  split at failed
  · cases failed
    rfl
  · cases failed

theorem callGetterFails (failed : (callGetter setting offset i).run m = .error e next) :
    Fails setting i m next := by
  refine accessorThen (P := fun outcome => outcome = .error e next → Fails setting i m next)
    ?_ ?_ failed
  · rintro e located _ ⟨⟩
    exact .refused m.stack
  · intro p _
    refine getThen (P := fun outcome => outcome = .error e next → Fails setting i m next) ?_
    split
    · intro unpushed
      rw [pushFailed unpushed]
      exact .refused m.stack
    · rename_i reading answered
      intro unpushed
      rw [pushFailed (m := m.withHeap _) unpushed]
      exact .read answered

theorem callSetterFails (setter : i.op = .callSetter)
    (failed : (callSetter setting offset i).run m = .error e next) : Fails setting i m next := by
  refine accessorThen (P := fun outcome => outcome = .error e next → Fails setting i m next)
    ?_ ?_ failed
  · rintro e located _ ⟨⟩
    exact .refused m.stack
  · intro p _
    refine popThen (P := fun outcome => outcome = .error e next → Fails setting i m next)
      m.stack ?_ ?_
    · rintro ⟨⟩
      exact .refused []
    · intro v rest top
      refine getThen (P := fun outcome => outcome = .error e next → Fails setting i m next) ?_
      split
      · intro impossible
        cases impossible
      · rename_i fault after written
        rintro ⟨⟩
        exact .wrote setter top written

end MachineM

theorem stepFails {setting : Setting} {offset : Nat} {i : Instruction} {m next : Machine}
    {e : RuntimeError} (room : m.stack.length ≤ setting.limit)
    (failed : (step setting offset i).run m = .error e next) : Fails setting i m next := by
  have effect := stepEffect setting offset i m room
  rw [failed] at effect
  cases effect with
  | refused e stack located less => exact .refused stack
  | readRefused p reading op answered =>
    obtain ⟨code,operand⟩ := i
    cases op
    exact MachineM.callGetterFails failed
  | writeRefused p v e after stack op wrote less =>
    obtain ⟨code,operand⟩ := i
    cases op
    exact MachineM.callSetterFails rfl failed

end ScriptMachine
