import ScriptMachine.Machine.Run
/-! What one instruction can do to a machine, whatever the instruction and its
operand. A step moves values on the stack, or does exactly one thing more: it
writes a local, a key of the store, an element of an array or a property, it
makes an array, or it takes over the arrays as a getter left them. A step that is
refused has done nothing but taken operands off the stack; only a getter whose
value finds no room and a setter that fails leave more behind. -/
namespace ScriptMachine

def RuntimeError.offset? : RuntimeError → Option Nat
  | stackUnderflow offset => some offset
  | stackOverflow offset _ => some offset
  | typeMismatch _ _ offset => some offset
  | invalidSlot _ offset => some offset
  | missingOperand offset => some offset
  | indexOutOfBounds _ _ offset => some offset
  | unknownAccessor _ offset => some offset
  | native _ => none

namespace Machine

def withStack (m : Machine) (stack : List Value) : Machine :=
  { m with stack := stack }

def withLocal (m : Machine) (slot : Nat) (v : Value) : Machine :=
  { m with locals := m.locals.set slot v }

def withStore (m : Machine) (store : Store) : Machine :=
  { m with context := { m.context with store := store } }

def withHeap (m : Machine) (heap : Heap) : Machine :=
  { m with context := { m.context with heap := heap } }

def surroundings (m : Machine) : Surroundings :=
  ⟨m.context.environment,m.context.heap⟩

def withSurroundings (m : Machine) (s : Surroundings) : Machine :=
  { m with context := m.context.withSurroundings s }

end Machine

abbrev StepResult := EStateM.Result RuntimeError Machine Unit

inductive Effect (setting : Setting) (offset : Nat) (i : Instruction) (m : Machine) :
    StepResult → Prop where
  | moved (stack) (room : stack.length ≤ setting.limit)
      (grown : stack.length ≤ m.stack.length + 1) :
      Effect setting offset i m (.ok () (m.withStack stack))
  | refused (e stack) (located : e.offset? = some offset)
      (room : stack.length ≤ m.stack.length) :
      Effect setting offset i m (.error e (m.withStack stack))
  | storedLocal (slot v stack) {entry} (slotted : setting.method.locals[slot]? = some entry)
      (fits : v.fits entry.type = true) (room : stack.length ≤ m.stack.length) :
      Effect setting offset i m (.ok () ((m.withStack stack).withLocal slot v))
  | storedKey (name v stack) (object : v.isRaw = false) (room : stack.length ≤ m.stack.length) :
      Effect setting offset i m
        (.ok () ((m.withStack stack).withStore (m.context.store.set name v)))
  | storedItem (id index v stack) {cell} (known : m.context.heap.cell? id = some cell)
      (fits : v.fits cell.element = true) (room : stack.length ≤ m.stack.length) :
      Effect setting offset i m
        (.ok () ((m.withStack stack).withHeap (m.context.heap.setItem id index v)))
  | allocated (element count stack) (room : stack.length ≤ m.stack.length) :
      Effect setting offset i m (.ok () ((m.withStack stack).withHeap
        (m.context.heap.alloc ⟨element,Array.replicate count element.initial⟩).2))
  | read (p : Property) (reading) (op : i.op = .callGetter)
      (answered : p.read setting.host m.context.environment m.context.heap = some reading)
      (room : m.stack.length < setting.limit) :
      Effect setting offset i m
        (.ok () ((m.withStack (reading.value :: m.stack)).withHeap reading.heap))
  | readRefused (p : Property) (reading) (op : i.op = .callGetter)
      (answered : p.read setting.host m.context.environment m.context.heap = some reading) :
      Effect setting offset i m
        (.error (.stackOverflow offset setting.limit) (m.withHeap reading.heap))
  | wrote (p : Property) (v after stack) (op : i.op = .callSetter)
      (written : (p.write setting.host v).run m.surroundings = .ok () after)
      (room : stack.length ≤ m.stack.length) :
      Effect setting offset i m (.ok () ((m.withStack stack).withSurroundings after))
  | writeRefused (p : Property) (v e after stack) (op : i.op = .callSetter)
      (failed : (p.write setting.host v).run m.surroundings = .error e after)
      (room : stack.length ≤ m.stack.length) :
      Effect setting offset i m (.error (.native e) ((m.withStack stack).withSurroundings after))

def RuntimeError.isOverflow : RuntimeError → Bool
  | stackOverflow .. => true
  | _ => false

namespace MachineM

section Rules
variable {α β : Type} {P : EStateM.Result RuntimeError Machine β → Prop} {m : Machine}
variable {offset : Nat}

theorem getThen {f : Machine → MachineM β} (looked : P ((f m).run m)) : P ((get >>= f).run m) :=
  looked

theorem setThen {f : Unit → MachineM β} (next : Machine) (changed : P ((f ()).run next)) :
    P ((set next >>= f).run m) :=
  changed

theorem ofExceptThen {x : Except RuntimeError α} {f : α → MachineM β}
    (failed : ∀ e, x = .error e → P (.error e m)) (done : ∀ a, x = .ok a → P ((f a).run m)) :
    P ((MonadExcept.ofExcept x >>= f).run m) := by
  cases x with
  | error e => exact failed e rfl
  | ok a => exact done a rfl

theorem popThen (stack : List Value) {f : Value → MachineM β}
    (empty : P (.error (.stackUnderflow offset) (m.withStack [])))
    (taken : ∀ v rest, stack = v :: rest → P ((f v).run (m.withStack rest))) :
    P ((pop offset >>= f).run (m.withStack stack)) := by
  cases stack with
  | nil => exact empty
  | cons v rest => exact taken v rest rfl

theorem accessorThen {method : CompiledMethod} {i : Instruction} {f : Property → MachineM β}
    (failed : ∀ e, e.offset? = some offset → e.isOverflow = false → P (.error e m))
    (found : ∀ p ∈ method.accessors, P ((f p).run m)) :
    P ((accessorOf method i offset >>= f).run m) := by
  unfold accessorOf
  split
  · split
    · rename_i p position
      exact found p (List.mem_of_getElem? position)
    · exact failed _ rfl rfl
  · exact failed _ rfl rfl

theorem slotThen {i : Instruction} {f : Nat → MachineM β}
    (failed : P (.error (.missingOperand offset) m)) (found : ∀ slot, P ((f slot).run m)) :
    P ((slotOf i offset >>= f).run m) := by
  unfold slotOf
  split
  · exact found _
  · exact failed

end Rules

end MachineM

theorem forceMismatch {target : Scalar} {v : Value} {offset : Nat} {e : RuntimeError}
    (failed : forceObject target v offset = .error e) :
    ∃ expected found, e = .typeMismatch expected found offset := by
  cases v <;> cases failed <;> exact ⟨_,_,rfl⟩

theorem fetchMismatch {store : Store} {target key : Value} {offset : Nat} {e : RuntimeError}
    (failed : store.fetch target key offset = .error e) :
    ∃ expected found, e = .typeMismatch expected found offset := by
  cases target <;> cases key <;> cases failed <;> exact ⟨_,_,rfl⟩

theorem assignCases (store : Store) (target key v : Value) (offset : Nat) :
    (∃ name, target = .store ∧ v.isRaw = false ∧ key = .string name ∧
      store.assign target key v offset = .ok (store.set name v)) ∨
    ∃ expected found,
      store.assign target key v offset = .error (.typeMismatch expected found offset) := by
  cases target with
  | store =>
    unfold Store.assign expectObject
    cases v.isRaw with
    | true => exact .inr ⟨_,_,rfl⟩
    | false =>
      cases key with
      | string name => exact .inl ⟨name,rfl,rfl,rfl,rfl⟩
      | null | int | long | decimal | bool | boxed | array | store => exact .inr ⟨_,_,rfl⟩
  | null | int | long | decimal | bool | string | boxed | array => exact .inr ⟨_,_,rfl⟩

theorem assignMismatch {store : Store} {target key v : Value} {offset : Nat} {e : RuntimeError}
    (failed : store.assign target key v offset = .error e) :
    ∃ expected found, e = .typeMismatch expected found offset := by
  rcases assignCases store target key v offset with ⟨name,_,_,_,ok⟩ | ⟨expected,found,refused⟩
  · cases ok.symm.trans failed
  · cases refused.symm.trans failed
    exact ⟨expected,found,rfl⟩

theorem assignOk {store after : Store} {target key v : Value} {offset : Nat}
    (ok : store.assign target key v offset = .ok after) :
    target = .store ∧ v.isRaw = false ∧ ∃ name, key = .string name ∧ after = store.set name v := by
  rcases assignCases store target key v offset with ⟨name,place,object,text,done⟩ | ⟨_,_,refused⟩
  · cases done.symm.trans ok
    exact ⟨place,object,name,text,rfl⟩
  · cases refused.symm.trans ok

namespace MachineM

section Instructions
variable {setting : Setting} {offset : Nat} {i : Instruction} {m : Machine}

theorem pushRoom {limit offset : Nat} {m : Machine} (v : Value) (room : m.stack.length < limit) :
    (push limit offset v).run m = .ok () (m.withStack (v :: m.stack)) := by
  simp only [push,EStateM.run]
  rw [if_neg (by omega)]
  rfl

theorem pushEffect (v : Value) :
    Effect setting offset i m ((push setting.limit offset v).run m) := by
  by_cases full : setting.limit ≤ m.stack.length
  · simp only [push,EStateM.run,if_pos full]
    exact .refused _ m.stack rfl (Nat.le_refl _)
  · rw [pushRoom v (by omega)]
    exact .moved (v :: m.stack) (by simp; omega) (by simp)

theorem dupEffect : Effect setting offset i m ((dup setting.limit offset).run m) := by
  refine getThen ?_
  split
  · exact .refused _ m.stack rfl (Nat.le_refl _)
  · exact pushEffect _

theorem popEffect (below : List Value) (less : below.length ≤ m.stack.length)
    {f : Value → MachineM Unit}
    (taken : ∀ v rest, below.length = rest.length + 1 →
      Effect setting offset i m ((f v).run (m.withStack rest))) :
    Effect setting offset i m ((pop offset >>= f).run (m.withStack below)) := by
  refine popThen below (.refused _ [] rfl (Nat.zero_le _)) ?_
  rintro v rest rfl
  exact taken v rest rfl

theorem popIndexEffect (below : List Value) (less : below.length ≤ m.stack.length)
    {f : Int → MachineM Unit}
    (taken : ∀ n rest, below.length = rest.length + 1 →
      Effect setting offset i m ((f n).run (m.withStack rest))) :
    Effect setting offset i m ((popIndex offset >>= f).run (m.withStack below)) := by
  cases below with
  | nil => exact .refused _ [] rfl less
  | cons v rest =>
    cases v with
    | int n => exact taken n.toInt rest rfl
    | null | long | decimal | bool | string | boxed | array | store =>
      exact .refused _ rest rfl (Nat.le_of_succ_le less)

theorem putBack (v : Value) (rest : List Value) (room : m.stack.length ≤ setting.limit)
    (less : rest.length < m.stack.length) :
    Effect setting offset i m ((push setting.limit offset v).run (m.withStack rest)) := by
  rw [pushRoom v (Nat.lt_of_lt_of_le less room)]
  exact .moved (v :: rest) (Nat.le_trans less room) (Nat.le_succ_of_le less)

theorem boxEffect (room : m.stack.length ≤ setting.limit) :
    Effect setting offset i m ((box setting.limit offset).run m) := by
  refine popEffect m.stack (Nat.le_refl _) ?_
  intro v rest less
  split
  · exact putBack _ rest room (by omega)
  · exact .refused _ rest rfl (by omega)

theorem loadLocalEffect : Effect setting offset i m ((loadLocal setting.limit offset i).run m) := by
  refine slotThen ?_ ?_
  · exact .refused _ m.stack rfl (Nat.le_refl _)
  · intro slot
    refine getThen ?_
    split
    · exact pushEffect _
    · exact .refused _ m.stack rfl (Nat.le_refl _)

theorem storeLocalEffect :
    Effect setting offset i m ((storeLocal setting.method offset i).run m) := by
  refine slotThen ?_ ?_
  · exact .refused _ m.stack rfl (Nat.le_refl _)
  · intro slot
    refine popEffect m.stack (Nat.le_refl _) ?_
    intro v rest less
    cases slotted : setting.method.locals[slot]? with
    | none => exact .refused _ rest rfl (by omega)
    | some entry =>
      simp only
      split
      · rename_i fits
        exact .storedLocal slot v rest slotted fits (by omega)
      · exact .refused _ rest rfl (by omega)

theorem loadArgumentEffect : Effect setting offset i m ((loadArgument setting offset i).run m) := by
  unfold loadArgument
  split
  · exact pushEffect _
  · exact .refused _ m.stack rfl (Nat.le_refl _)

theorem forceEffect (target : Scalar) (room : m.stack.length ≤ setting.limit) :
    Effect setting offset i m ((callIntrinsic setting.limit offset (.force target)).run m) := by
  refine popEffect m.stack (Nat.le_refl _) ?_
  intro v rest less
  refine ofExceptThen ?_ ?_
  · intro e failed
    obtain ⟨_,_,rfl⟩ := forceMismatch failed
    exact .refused _ rest rfl (by omega)
  · intro w _
    exact putBack w rest room (by omega)

theorem storeGetEffect (room : m.stack.length ≤ setting.limit) :
    Effect setting offset i m ((callIntrinsic setting.limit offset .storeGet).run m) := by
  refine popEffect m.stack (Nat.le_refl _) ?_
  intro key below top
  refine popEffect below (by omega) ?_
  intro target rest next
  refine getThen (ofExceptThen ?_ ?_)
  · intro e failed
    obtain ⟨_,_,rfl⟩ := fetchMismatch failed
    exact .refused _ rest rfl (by omega)
  · intro v _
    exact putBack v rest room (by omega)

theorem storeSetEffect (room : m.stack.length ≤ setting.limit) :
    Effect setting offset i m ((callIntrinsic setting.limit offset .storeSet).run m) := by
  refine popEffect m.stack (Nat.le_refl _) ?_
  intro v below top
  refine popEffect below (by omega) ?_
  intro key lower next
  refine popEffect lower (by omega) ?_
  intro target rest last
  refine getThen (ofExceptThen ?_ ?_)
  · intro e failed
    obtain ⟨_,_,rfl⟩ := assignMismatch failed
    exact .refused _ rest rfl (by omega)
  · intro store done
    obtain ⟨_,object,name,_,rfl⟩ := assignOk done
    refine setThen _ ?_
    -- three operands went and one value comes back, so this push cannot fail after the write
    rw [pushRoom v (by simp [Machine.withStack]; omega)]
    exact .storedKey name v (v :: rest) object (by simp; omega)

theorem callGetterEffect (getter : i.op = .callGetter) :
    Effect setting offset i m ((callGetter setting offset i).run m) := by
  refine accessorThen ?_ ?_
  · intro e located _
    exact .refused e m.stack located (Nat.le_refl _)
  · intro p _
    refine getThen ?_
    split
    · exact pushEffect _
    · rename_i reading answered
      refine setThen _ ?_
      by_cases full : setting.limit ≤ m.stack.length
      · simp only [push,EStateM.run,if_pos full]
        exact .readRefused p reading getter answered
      · rw [pushRoom _ (by simpa using full)]
        exact .read p reading getter answered (by omega)

theorem callSetterEffect (setter : i.op = .callSetter) :
    Effect setting offset i m ((callSetter setting offset i).run m) := by
  refine accessorThen ?_ ?_
  · intro e located _
    exact .refused e m.stack located (Nat.le_refl _)
  · intro p _
    refine popEffect m.stack (Nat.le_refl _) ?_
    intro v rest less
    refine getThen ?_
    split
    · rename_i after written
      exact .wrote p v after rest setter written (by omega)
    · rename_i e after failed
      exact .writeRefused p v e after rest setter failed (by omega)

theorem newArrayEffect (room : m.stack.length ≤ setting.limit) :
    Effect setting offset i m ((newArray setting.limit offset i).run m) := by
  unfold newArray
  split
  · rename_i element _
    refine popIndexEffect m.stack (Nat.le_refl _) ?_
    intro count rest less
    by_cases negative : count < 0
    · simp only [if_pos negative]
      exact .refused _ rest rfl (by omega)
    · simp only [if_neg negative]
      refine getThen (setThen _ ?_)
      rw [pushRoom _ (by simp [Machine.withStack]; omega)]
      exact .allocated element count.toNat (_ :: rest) (by simp; omega)
  · exact .refused _ m.stack rfl (Nat.le_refl _)

theorem storeElementEffect :
    Effect setting offset i m ((storeElement offset).run m) := by
  refine popEffect m.stack (Nat.le_refl _) ?_
  intro v below top
  refine popIndexEffect below (by omega) ?_
  intro index lower next
  refine popEffect lower (by omega) ?_
  intro target rest last
  cases target with
  | array id =>
    refine getThen ?_
    simp only
    split
    · rename_i fits
      split
      · rename_i bounds
        cases known : m.context.heap.cell? id with
        | none =>
          -- an unknown array counts as empty, so that no index is within it
          simp [Machine.withStack,known] at bounds
          omega
        | some cell =>
          simp only [Machine.withStack,known,Option.getD_some] at fits
          exact .storedItem id index.toNat v rest known fits (by omega)
      · exact .refused _ rest rfl (by omega)
    · exact .refused _ rest rfl (by omega)
  | null | int | long | decimal | bool | string | boxed | store =>
    exact .refused _ rest rfl (by omega)

end Instructions
end MachineM

open MachineM in
theorem stepEffect (setting : Setting) (offset : Nat) (i : Instruction) (m : Machine)
    (room : m.stack.length ≤ setting.limit) :
    Effect setting offset i m ((step setting offset i).run m) := by
  unfold step
  split
  case h_1 =>
    unfold pushConst
    split
    · exact pushEffect _
    · exact .refused _ m.stack rfl (Nat.le_refl _)
  case h_2 => exact pushEffect _
  case h_3 =>
    refine popEffect m.stack (Nat.le_refl _) ?_
    intro v rest less
    exact .moved rest (by omega) (by omega)
  case h_4 => exact dupEffect
  case h_5 => exact boxEffect room
  case h_6 => exact loadLocalEffect
  case h_7 => exact storeLocalEffect
  case h_8 => exact loadArgumentEffect
  case h_9 => exact pushEffect _
  case h_10 =>
    split
    · rename_i routine _
      cases routine with
      | force target => exact forceEffect target room
      | storeGet => exact storeGetEffect room
      | storeSet => exact storeSetEffect room
    · exact .refused _ m.stack rfl (Nat.le_refl _)
  case h_11 getter => exact callGetterEffect getter
  case h_12 setter => exact callSetterEffect setter
  case h_13 => exact newArrayEffect room
  case h_14 => exact storeElementEffect

end ScriptMachine
