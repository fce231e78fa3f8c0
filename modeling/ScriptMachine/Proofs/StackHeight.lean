import ScriptMachine.Proofs.Transition
/-! The height of the stack. What an instruction that succeeds does to it can be
read off the instruction, so that the height at each place of code is the same in
every run, and so is the greatest height. A run overflows only where that passes
the limit, and does not get to its end if it does. -/
namespace ScriptMachine

def Instruction.height (i : Instruction) (h : Nat) : Nat :=
  match i.op with
  | .pushConst | .pushNull | .dup | .loadLocal | .loadArgument | .loadStore | .callGetter => h + 1
  | .box | .newArray => h
  | .pop | .storeLocal | .callSetter => h - 1
  | .storeElement => h - 3
  | .callIntrinsic =>
    match i.operand with
    | some (.intrinsic .storeGet) => h - 1
    | some (.intrinsic .storeSet) => h - 2
    | _ => h

def heightAfter : Nat → List Instruction → Nat
  | h, [] => h
  | h, i :: code => heightAfter (i.height h) code

def peak : Nat → List Instruction → Nat
  | h, [] => h
  | h, i :: code => max h (peak (i.height h) code)

section Heights
variable (h : Nat) (first second : List Instruction)

theorem heightAppend :
    heightAfter h (first ++ second) = heightAfter (heightAfter h first) second := by
  induction first generalizing h with
  | nil => rfl
  | cons i rest ih => exact ih (i.height h)

theorem startBelowPeak (code : List Instruction) : h ≤ peak h code := by
  cases code with
  | nil => exact Nat.le_refl h
  | cons i rest => exact Nat.le_max_left h _

theorem endBelowPeak (code : List Instruction) : heightAfter h code ≤ peak h code := by
  induction code generalizing h with
  | nil => exact Nat.le_refl h
  | cons i rest ih => exact Nat.le_trans (ih (i.height h)) (Nat.le_max_right h _)

theorem peakAppend :
    peak h (first ++ second) = max (peak h first) (peak (heightAfter h first) second) := by
  induction first generalizing h with
  | nil =>
    have above := startBelowPeak h second
    simp only [List.nil_append,peak,heightAfter]
    omega
  | cons i rest ih => simp only [List.cons_append,peak,heightAfter,ih,Nat.max_assoc]

end Heights

theorem Moves.height {setting : Setting} {m next : Machine} {i : Instruction}
    (moves : Moves setting m i next) : next.stack.length = i.height m.stack.length := by
  cases moves with
  | pop operand top | box operand top | storeLocal slot top | force target top | storeGet top
  | storeSet top | wrote index known top | newArray element top | storeElement operand top =>
    simp [top,Machine.withStack,Machine.withLocal,Machine.withStore,Machine.withHeap,
      Machine.withSurroundings,Instruction.height]
  | pushConst | pushNull | dup | loadLocal | loadArgument | loadStore | readNothing | read => rfl

def Outgrows (limit height : Nat) (outcome : StepResult) : Prop :=
  ∀ offset bound left, outcome = .error (.stackOverflow offset bound) left → limit < height

theorem doneFits {limit h : Nat} {m : Machine} : Outgrows limit h (.ok () m) := by
  intro place bound left failed
  cases failed

theorem otherFits {limit h : Nat} {m : Machine} {e : RuntimeError} (other : e.isOverflow = false) :
    Outgrows limit h (.error e m) := by
  rintro place bound left ⟨⟩
  cases other

namespace MachineM
variable {setting : Setting} {offset h : Nat} {i : Instruction} {m : Machine}

theorem pushOutgrows (v : Value) :
    Outgrows setting.limit (m.stack.length + 1) ((push setting.limit offset v).run m) := by
  intro place bound left failed
  by_cases room : m.stack.length < setting.limit
  · rw [pushRoom v room] at failed
    cases failed
  · omega

theorem putBackFits (v : Value) (room : m.stack.length < setting.limit) :
    Outgrows setting.limit h ((push setting.limit offset v).run m) := by
  intro place bound left failed
  rw [pushRoom v room] at failed
  cases failed

theorem popIndexOutgrows (stack : List Value) {f : Int → MachineM Unit}
    (taken : ∀ n rest, stack.length = rest.length + 1 →
      Outgrows setting.limit h ((f n).run (m.withStack rest))) :
    Outgrows setting.limit h ((popIndex offset >>= f).run (m.withStack stack)) := by
  cases stack with
  | nil => exact otherFits rfl
  | cons v rest =>
    cases v with
    | int n => exact taken n.toInt rest rfl
    | null | long | decimal | bool | string | boxed | array | store => exact otherFits rfl

theorem intrinsicFits (routine : Intrinsic) (room : m.stack.length ≤ setting.limit) :
    Outgrows setting.limit h ((callIntrinsic setting.limit offset routine).run m) := by
  cases routine with
  | force target =>
    refine popThen m.stack (otherFits rfl) ?_
    intro v rest top
    refine ofExceptThen ?_ ?_
    · intro e failed
      obtain ⟨_,_,rfl⟩ := forceMismatch failed
      exact otherFits rfl
    · intro w _
      rw [top,List.length_cons] at room
      exact putBackFits w room
  | storeGet =>
    refine popThen m.stack (otherFits rfl) ?_
    intro key below top
    refine popThen below (otherFits rfl) ?_
    intro target rest under
    refine getThen (ofExceptThen ?_ ?_)
    · intro e failed
      obtain ⟨_,_,rfl⟩ := fetchMismatch failed
      exact otherFits rfl
    · intro w _
      rw [top,List.length_cons,under,List.length_cons] at room
      exact putBackFits w (Nat.le_of_succ_le room)
  | storeSet =>
    refine popThen m.stack (otherFits rfl) ?_
    intro v lower top
    refine popThen lower (otherFits rfl) ?_
    intro key below under
    refine popThen below (otherFits rfl) ?_
    intro target rest last
    refine getThen (ofExceptThen ?_ ?_)
    · intro e failed
      obtain ⟨_,_,rfl⟩ := assignMismatch failed
      exact otherFits rfl
    · intro store _
      refine setThen _ ?_
      have less : rest.length < setting.limit := by
        rw [top,List.length_cons,under,List.length_cons,last,List.length_cons] at room
        omega
      exact putBackFits v less

theorem callGetterOutgrows :
    Outgrows setting.limit (m.stack.length + 1) ((callGetter setting offset i).run m) := by
  refine accessorThen (fun e _ other => otherFits other) ?_
  intro p _
  refine getThen ?_
  split
  · exact pushOutgrows .null
  · rename_i reading _
    refine setThen _ ?_
    exact pushOutgrows reading.value

theorem callSetterFits :
    Outgrows setting.limit h ((callSetter setting offset i).run m) := by
  refine accessorThen (fun e _ other => otherFits other) ?_
  intro p _
  refine popThen m.stack (otherFits rfl) ?_
  intro v rest top
  refine getThen ?_
  split
  · exact doneFits
  · exact otherFits rfl

theorem newArrayFits (room : m.stack.length ≤ setting.limit) :
    Outgrows setting.limit h ((newArray setting.limit offset i).run m) := by
  unfold newArray
  split
  · rename_i element _
    refine popIndexOutgrows m.stack ?_
    intro count rest less
    by_cases negative : count < 0
    · simp only [if_pos negative]
      exact otherFits rfl
    · simp only [if_neg negative]
      refine getThen (setThen _ ?_)
      have less : rest.length < setting.limit := by omega
      exact putBackFits _ less
  · exact otherFits rfl

theorem storeElementFits : Outgrows setting.limit h ((storeElement offset).run m) := by
  refine popThen m.stack (otherFits rfl) ?_
  intro v below top
  refine popIndexOutgrows below ?_
  intro index lower less
  refine popThen lower (otherFits rfl) ?_
  intro target rest under
  cases target with
  | array id =>
    refine getThen ?_
    simp only
    split
    · split
      · exact doneFits
      · exact otherFits rfl
    · exact otherFits rfl
  | null | int | long | decimal | bool | string | boxed | store => exact otherFits rfl

end MachineM

open MachineM in
/-- Only a push can find the stack full, as every other instruction makes room first. -/
theorem stepOutgrows {setting : Setting} (offset : Nat) (i : Instruction) {m : Machine}
    (room : m.stack.length ≤ setting.limit) :
    Outgrows setting.limit (i.height m.stack.length) ((step setting offset i).run m) := by
  obtain ⟨op,operand⟩ := i
  cases op with
  | pushConst =>
    simp only [step,pushConst]
    split
    · exact pushOutgrows _
    · exact otherFits rfl
  | pushNull => exact pushOutgrows _
  | pop =>
    refine popThen m.stack (otherFits rfl) ?_
    intro v rest top
    exact doneFits
  | dup =>
    refine getThen ?_
    split
    · exact otherFits rfl
    · exact pushOutgrows _
  | box =>
    refine popThen m.stack (otherFits rfl) ?_
    intro v rest top
    split
    · rw [top,List.length_cons] at room
      exact putBackFits _ room
    · exact otherFits rfl
  | loadLocal =>
    refine slotThen (otherFits rfl) ?_
    intro slot
    refine getThen ?_
    split
    · exact pushOutgrows _
    · exact otherFits rfl
  | storeLocal =>
    refine slotThen (otherFits rfl) ?_
    intro slot
    refine popThen m.stack (otherFits rfl) ?_
    intro v rest top
    split
    · exact otherFits rfl
    · split
      · exact doneFits
      · exact otherFits rfl
  | loadArgument =>
    simp only [step,loadArgument]
    split
    · exact pushOutgrows _
    · exact otherFits rfl
  | loadStore => exact pushOutgrows _
  | callIntrinsic =>
    simp only [step]
    split
    · exact intrinsicFits _ room
    · exact otherFits rfl
  | callGetter => exact callGetterOutgrows
  | callSetter => exact callSetterFits
  | newArray => exact newArrayFits room
  | storeElement => exact storeElementFits

section Runs
variable {setting : Setting} {offset : Nat} {code : List Instruction} {m : Machine}

theorem overflowOutgrows (room : m.stack.length ≤ setting.limit) {place bound : Nat}
    {left : Machine}
    (failed : (runFrom setting offset code).run m = .error (.stackOverflow place bound) left) :
    setting.limit < peak m.stack.length code := by
  induction code generalizing offset m with
  | nil => cases failed
  | cons i rest ih =>
    have within := (stepEffect setting offset i m room).stackRoom room
    rw [runCons] at failed
    cases stepped : (step setting offset i).run m with
    | error e next =>
      rw [stepped] at failed
      cases failed
      have above := stepOutgrows offset i room _ _ _ stepped
      have below := startBelowPeak (i.height m.stack.length) rest
      simp only [peak]
      omega
    | ok u next =>
      rw [stepped] at failed within
      have later : setting.limit < peak next.stack.length rest := ih within failed
      rw [(stepMoves stepped).height] at later
      simp only [peak]
      omega

theorem finishedFits (room : m.stack.length ≤ setting.limit) {last : Machine}
    (ran : (runFrom setting offset code).run m = .ok () last) :
    peak m.stack.length code ≤ setting.limit := by
  induction code generalizing offset m with
  | nil => exact room
  | cons i rest ih =>
    have within := (stepEffect setting offset i m room).stackRoom room
    rw [runCons] at ran
    cases stepped : (step setting offset i).run m with
    | error e next =>
      rw [stepped] at ran
      cases ran
    | ok u next =>
      rw [stepped] at ran within
      have later : peak next.stack.length rest ≤ setting.limit := ih within ran
      rw [(stepMoves stepped).height] at later
      exact Nat.max_le.mpr ⟨room,later⟩

end Runs

end ScriptMachine
