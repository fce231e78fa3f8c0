import ScriptMachine.Proofs.CodeFlow
import ScriptMachine.Proofs.Refinement
/-! What lies below on the stack. Code that starts above other values neither looks at
them nor changes them. So it does the same above fewer of them, and at another place
of a method; only there may be more room. -/
namespace ScriptMachine

section Runs
variable {setting : Setting} {offset : Nat} {m next : Machine}

theorem runConsOk {i : Instruction} {rest : List Instruction}
    (ran : (runFrom setting offset (i :: rest)).run m = .ok () next) :
    ∃ middle, (step setting offset i).run m = .ok () middle ∧
      (runFrom setting (offset + 1) rest).run middle = .ok () next := by
  obtain ⟨_,middle,stepped,later⟩ := bindOk ran
  exact ⟨middle,stepped,later⟩

theorem runAppendOk {first second : List Instruction}
    (ran : (runFrom setting offset (first ++ second)).run m = .ok () next) :
    ∃ middle, (runFrom setting offset first).run m = .ok () middle ∧
      (runFrom setting (offset + first.length) second).run middle = .ok () next := by
  rw [runFromAppend] at ran
  obtain ⟨_,middle,front,back⟩ := bindOk ran
  exact ⟨middle,front,back⟩

theorem runOkRoom {code : List Instruction} (room : m.stack.length ≤ setting.limit)
    (ran : (runFrom setting offset code).run m = .ok () next) :
    next.stack.length ≤ setting.limit := by
  have within := runRoom room offset code
  rwa [ran] at within

end Runs

section Steps
variable {setting : Setting} {offset : Nat} {m next : Machine} {v : Value}
variable {top base low rest : List Value}

theorem stepRoom {i : Instruction} (room : m.stack.length ≤ setting.limit)
    (stepped : (step setting offset i).run m = .ok () next) :
    next.stack.length ≤ setting.limit := by
  have within := (stepEffect setting offset i m room).stackRoom room
  rw [stepped] at within
  exact within

theorem storeElementInside {id : ArrayId} {cell : ArrayCell} {n : Int32}
    (known : m.context.heap.cell? id = some cell)
    (found : m.stack = v :: .int n :: .array id :: rest)
    (stepped : (step setting offset .storeElement).run m = .ok () next) :
    0 ≤ n.toInt ∧ n.toInt < cell.items.size := by
  obtain ⟨locals,stack,context⟩ := m
  cases found
  by_cases inside : 0 ≤ n.toInt ∧ n.toInt < (cell.items.size : Int)
  · exact inside
  · simp only [step,Instruction.storeElement,MachineM.storeElement,MachineM.popIndex,
      EStateM.run_bind,MachineM.popRun,EStateM.run_pure,EStateM.run_get,known,Option.getD_some,
      if_neg inside] at stepped
    split at stepped <;> cases stepped

def Lowered (setting : Setting) (other : Nat) (i : Instruction) (m next : Machine)
    (top base low : List Value) (height : Nat) : Prop :=
  ∃ left, left.length = height ∧ next.stack = left ++ base ∧
    (step setting other i).run (m.withStack (top ++ low)) = .ok () (next.withStack (left ++ low))

theorem MachineM.pushLower (other : Nat) (within : (v :: (top ++ base)).length ≤ setting.limit)
    (lower : low.length ≤ base.length) :
    (push setting.limit other v).run (m.withStack (top ++ low)) =
      .ok () (m.withStack (v :: top ++ low)) := by
  refine pushRoom v ?_
  simp only [List.length_cons,List.length_append,Machine.withStack] at within ⊢
  omega

section Opcodes
variable {other height : Nat} {i : Instruction}

theorem pushLowered (counted : top.length = height) (stacked : m.stack = top ++ base)
    (lower : low.length ≤ base.length)
    (within : (m.withStack (v :: m.stack)).stack.length ≤ setting.limit)
    (pushes : (step setting other i).run (m.withStack (top ++ low)) =
      (MachineM.push setting.limit other v).run (m.withStack (top ++ low))) :
    Lowered setting other i m (m.withStack (v :: m.stack)) top base low (height + 1) := by
  rw [stacked] at within ⊢
  exact ⟨v :: top,congrArg (· + 1) counted,rfl,pushes.trans (MachineM.pushLower other within lower)⟩

theorem storeLocalLowered {slot : Nat} (counted : top.length = height + 1)
    (stacked : m.stack = top ++ base) (moves : Moves setting m (.storeLocal slot) next) :
    Lowered setting other (.storeLocal slot) m next top base low height := by
  obtain ⟨v,top,rfl⟩ := List.exists_cons_of_length_eq_add_one counted
  cases moves with
  | storeLocal slot found known fits =>
    cases stacked.symm.trans found
    exact ⟨top,Nat.succ.inj counted,rfl,
      (storeLocalStep (m := m.withStack (v :: top ++ low)) known rfl).passes fits⟩

theorem storeGetLowered (counted : top.length = height + 2) (stacked : m.stack = top ++ base)
    (room : (m.withStack (top ++ low)).stack.length ≤ setting.limit)
    (moves : Moves setting m (.call .storeGet) next) :
    Lowered setting other (.call .storeGet) m next top base low (height + 1) := by
  obtain ⟨key,top,rfl⟩ := List.exists_cons_of_length_eq_add_one counted
  obtain ⟨target,top,rfl⟩ := List.exists_cons_of_length_eq_add_one (Nat.succ.inj counted)
  cases moves with
  | @storeGet name rest found =>
    cases stacked.symm.trans found
    exact ⟨m.context.store.get name :: top,Nat.succ.inj counted,rfl,storeGetText rfl room⟩

theorem storeSetLowered (counted : top.length = height + 3) (stacked : m.stack = top ++ base)
    (room : (m.withStack (top ++ low)).stack.length ≤ setting.limit)
    (moves : Moves setting m (.call .storeSet) next) :
    Lowered setting other (.call .storeSet) m next top base low (height + 1) := by
  obtain ⟨v,top,rfl⟩ := List.exists_cons_of_length_eq_add_one counted
  obtain ⟨key,top,rfl⟩ := List.exists_cons_of_length_eq_add_one (Nat.succ.inj counted)
  obtain ⟨target,top,rfl⟩ :=
    List.exists_cons_of_length_eq_add_one (Nat.succ.inj (Nat.succ.inj counted))
  cases moves with
  | @storeSet v name rest found object =>
    cases stacked.symm.trans found
    exact ⟨v :: top,Nat.succ.inj (Nat.succ.inj counted),rfl,storeSetText rfl object room⟩

theorem callGetterLowered {index : Nat} (counted : top.length = height)
    (stacked : m.stack = top ++ base) (lower : low.length ≤ base.length)
    (within : next.stack.length ≤ setting.limit)
    (moves : Moves setting m (.callGetter index) next) :
    Lowered setting other (.callGetter index) m next top base low (height + 1) := by
  cases moves with
  | readNothing index known unread =>
    refine pushLowered counted stacked lower within ?_
    rw [callGetterStep known]
    simp only [Machine.withStack,unread]
  | @read index p reading known answered =>
    simp only [Machine.withStack,Machine.withHeap,stacked] at within ⊢
    refine ⟨reading.value :: top,congrArg (· + 1) counted,rfl,?_⟩
    rw [callGetterStep known]
    simp only [Machine.withStack,answered]
    exact MachineM.pushLower (m := m.withHeap _) other within lower

theorem callSetterLowered {index : Nat} (counted : top.length = height + 1)
    (stacked : m.stack = top ++ base) (moves : Moves setting m (.callSetter index) next) :
    Lowered setting other (.callSetter index) m next top base low height := by
  obtain ⟨v,top,rfl⟩ := List.exists_cons_of_length_eq_add_one counted
  cases moves with
  | wrote index known found written =>
    cases stacked.symm.trans found
    refine ⟨top,Nat.succ.inj counted,rfl,?_⟩
    have same : (m.withStack (v :: top ++ low)).surroundings = m.surroundings := rfl
    rw [callSetterStep known rfl,same,written]
    rfl

theorem newArrayLowered {element : StaticType} (counted : top.length = height + 1)
    (stacked : m.stack = top ++ base)
    (room : (m.withStack (top ++ low)).stack.length ≤ setting.limit)
    (moves : Moves setting m (.newArray element) next) :
    Lowered setting other (.newArray element) m next top base low (height + 1) := by
  obtain ⟨v,top,rfl⟩ := List.exists_cons_of_length_eq_add_one counted
  cases moves with
  | newArray element found natural =>
    cases stacked.symm.trans found
    exact ⟨.array m.context.heap.size :: top,counted,rfl,
      newArrayStep (Int.toNat_of_nonneg natural).symm rfl room⟩

theorem storeElementLowered (counted : top.length = height + 3) (stacked : m.stack = top ++ base)
    (stepped : (step setting offset .storeElement).run m = .ok () next) :
    Lowered setting other .storeElement m next top base low height := by
  obtain ⟨v,top,rfl⟩ := List.exists_cons_of_length_eq_add_one counted
  obtain ⟨index,top,rfl⟩ := List.exists_cons_of_length_eq_add_one (Nat.succ.inj counted)
  obtain ⟨target,top,rfl⟩ :=
    List.exists_cons_of_length_eq_add_one (Nat.succ.inj (Nat.succ.inj counted))
  cases stepMoves stepped with
  | @storeElement operand v rest id cell n found known fits =>
    obtain ⟨natural,inside⟩ := storeElementInside known found stepped
    cases stacked.symm.trans found
    have below : n.toInt.toNat < cell.items.size := by omega
    refine ⟨top,Nat.succ.inj (Nat.succ.inj (Nat.succ.inj counted)),rfl,?_⟩
    exact (storeElementStep (m := m.withStack (v :: .int n :: .array id :: top ++ low))
      (Int.toNat_of_nonneg natural).symm known below rfl).passes fits

end Opcodes

theorem stepLowered (other : Nat) {i : Instruction} {a b : Stage}
    (does : Does setting.method i a b) (counted : top.length = a.stack.length)
    (lower : low.length ≤ base.length) (stacked : m.stack = top ++ base)
    (room : m.stack.length ≤ setting.limit)
    (stepped : (step setting offset i).run m = .ok () next) :
    Lowered setting other i m next top base low b.stack.length := by
  have moves := stepMoves stepped
  have within := stepRoom room stepped
  have lowRoom : (m.withStack (top ++ low)).stack.length ≤ setting.limit := by
    simp only [stacked,Machine.withStack,List.length_append] at room ⊢
    omega
  cases does with
  | pushConst c =>
    cases moves
    exact pushLowered counted stacked lower within rfl
  | pushNull =>
    cases moves
    exact pushLowered counted stacked lower within rfl
  | pop =>
    obtain ⟨v,top,rfl⟩ := List.exists_cons_of_length_eq_add_one counted
    cases moves with
    | pop operand found =>
      cases stacked.symm.trans found
      exact ⟨top,Nat.succ.inj counted,rfl,popStep (m := m.withStack (v :: top ++ low)) rfl⟩
  | dup | dupBuilding =>
    obtain ⟨v,rest,rfl⟩ := List.exists_cons_of_length_eq_add_one counted
    cases moves with
    | dup operand found =>
      cases stacked.symm.trans found
      exact pushLowered counted stacked lower within (dupStep rfl)
  | box valueType =>
    obtain ⟨v,top,rfl⟩ := List.exists_cons_of_length_eq_add_one counted
    cases moves with
    | box operand found raw =>
      cases stacked.symm.trans found
      exact ⟨.boxed v :: top,counted,rfl,boxStep _ raw rfl lowRoom⟩
  | loadLocal ready slotted =>
    cases moves with
    | loadLocal slot held =>
      exact pushLowered counted stacked lower within
        (loadLocalStep (m := m.withStack (top ++ low)) held)
  | storeLocal ready slotted => exact storeLocalLowered counted stacked moves
  | declareLocal slotted => exact storeLocalLowered counted stacked moves
  | loadArgument index =>
    cases moves
    exact pushLowered counted stacked lower within rfl
  | loadStore =>
    cases moves
    exact pushLowered counted stacked lower within rfl
  | force target reference =>
    obtain ⟨v,top,rfl⟩ := List.exists_cons_of_length_eq_add_one counted
    cases moves with
    | force target found object =>
      cases stacked.symm.trans found
      exact ⟨v.convert target :: top,counted,rfl,(forceStep target rfl lowRoom).passes object⟩
  | storeGet => exact storeGetLowered counted stacked lowRoom moves
  | storeSet => exact storeSetLowered counted stacked lowRoom moves
  | callGetter index => exact callGetterLowered counted stacked lower within moves
  | callSetter index => exact callSetterLowered counted stacked moves
  | newArray element => exact newArrayLowered counted stacked lowRoom moves
  | storeElement => exact storeElementLowered counted stacked stepped

end Steps

theorem runLowered {setting : Setting} {implicit : StaticType} {a c : Stage}
    {code : List Instruction} (flows : Flows setting.method implicit a code c) {offset : Nat}
    (other : Nat) {m next : Machine} {top base low : List Value}
    (counted : top.length = a.stack.length) (lower : low.length ≤ base.length)
    (stacked : m.stack = top ++ base) (room : m.stack.length ≤ setting.limit)
    (ran : (runFrom setting offset code).run m = .ok () next) :
    ∃ left, left.length = c.stack.length ∧ next.stack = left ++ base ∧
      (runFrom setting other code).run (m.withStack (top ++ low)) =
        .ok () (next.withStack (left ++ low)) := by
  induction flows generalizing offset m top other with
  | nil a =>
    cases ran
    exact ⟨top,counted,stacked,rfl⟩
  | @adjust code a b c adjusts rest ih =>
    have same : top.length = b.stack.length := by
      cases adjusts <;> simpa using counted
    exact ih other same stacked room ran
  | @step i code a b c does rest ih =>
    obtain ⟨after,stepped,later⟩ := runConsOk ran
    obtain ⟨middle,height,found,below⟩ := stepLowered other does counted lower stacked room stepped
    obtain ⟨left,final,last,ended⟩ := ih (other + 1) height found (stepRoom room stepped) later
    refine ⟨left,final,last,?_⟩
    rw [runCons,below]
    exact ended

end ScriptMachine
