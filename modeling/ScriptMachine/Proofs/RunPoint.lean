import ScriptMachine.Proofs.HostContract
import ScriptMachine.Proofs.StepEffect
/-! The points of a run: the machine after each number of instructions, which
stays as it is from the instruction that fails on. Between two points lies at
most one step, and its effect is one of those that a step can have. -/
namespace ScriptMachine

theorem runCons (setting : Setting) (offset : Nat) (i : Instruction) (rest : List Instruction)
    (m : Machine) :
    (runFrom setting offset (i :: rest)).run m = match (step setting offset i).run m with
      | .ok _ next => (runFrom setting (offset + 1) rest).run next
      | .error e next => .error e next := by
  simp only [runFrom,EStateM.run,bind,EStateM.bind]
  cases step setting offset i m <;> rfl

theorem runAppend (setting : Setting) (offset : Nat) (first second : List Instruction)
    (m : Machine) :
    (runFrom setting offset (first ++ second)).run m =
      match (runFrom setting offset first).run m with
      | .ok _ next => (runFrom setting (offset + first.length) second).run next
      | .error e next => .error e next := by
  simp only [runFromAppend,EStateM.run,bind,EStateM.bind]
  cases runFrom setting offset first m <;> rfl

namespace Effect
variable {setting : Setting} {offset : Nat} {i : Instruction} {m : Machine}

theorem stackRoom {outcome : StepResult} (effect : Effect setting offset i m outcome)
    (room : m.stack.length ≤ setting.limit) :
    (lastState outcome).stack.length ≤ setting.limit := by
  cases effect with
  | moved stack within grown => exact within
  | read p reading op answered below => exact below
  | readRefused p reading op answered => exact room
  | refused e stack located less => exact Nat.le_trans less room
  | storedLocal slot v stack slotted fits less => exact Nat.le_trans less room
  | storedKey name v stack object less => exact Nat.le_trans less room
  | storedItem id index v stack known fits less => exact Nat.le_trans less room
  | allocated element count stack less => exact Nat.le_trans less room
  | wrote p v after stack op written less => exact Nat.le_trans less room
  | writeRefused p v e after stack op failed less => exact Nat.le_trans less room

end Effect

theorem runRoom {setting : Setting} {m : Machine} (room : m.stack.length ≤ setting.limit)
    (offset : Nat) (code : List Instruction) :
    (lastState ((runFrom setting offset code).run m)).stack.length ≤ setting.limit := by
  induction code generalizing m offset with
  | nil => exact room
  | cons i rest ih =>
    have next := (stepEffect setting offset i m room).stackRoom room
    rw [runCons]
    cases outcome : (step setting offset i).run m with
    | ok u after =>
      rw [outcome] at next
      exact ih next (offset + 1)
    | error e after =>
      rw [outcome] at next
      exact next

namespace CompiledMethod

def setting (method : CompiledMethod) (host : Host) (limit : Nat) (context : Context) : Setting :=
  ⟨host,method,context.heap.size,limit⟩

def start (method : CompiledMethod) (arguments : List Value) (context : Context) : Machine :=
  ⟨method.initialLocals,[],{ context with
    heap := (context.heap.alloc ⟨.object,(arguments.map Value.asObject).toArray⟩).2 }⟩

theorem executeRun (host : Host) (limit : Nat) (method : CompiledMethod)
    (arguments : List Value) (context : Context) :
    (execute host limit method arguments).run context =
      match (runFrom (method.setting host limit context) 0 method.listing.instructions).run
          (method.start arguments context) with
      | .ok _ m => .ok ⟨method.locals.map (·.name),m.locals,m.stack⟩ m.context
      | .error e m => .error e m.context := rfl

/-- The machine after the first `n` instructions, or as the one that failed among them left it. -/
def point (method : CompiledMethod) (host : Host) (limit : Nat) (arguments : List Value)
    (context : Context) (n : Nat) : Machine :=
  lastState ((runFrom (method.setting host limit context) 0
    (method.listing.instructions.take n)).run (method.start arguments context))

section Points
variable (method : CompiledMethod) (host : Host) (limit : Nat) (arguments : List Value)
variable (context : Context)

theorem pointRoom (n : Nat) :
    (method.point host limit arguments context n).stack.length ≤ limit := by
  have room : (method.start arguments context).stack.length ≤
      (method.setting host limit context).limit := Nat.zero_le limit
  exact runRoom room 0 _

theorem pointStep (n : Nat) :
    method.point host limit arguments context (n + 1) =
        method.point host limit arguments context n ∨
      ∃ i outcome, method.listing.instructions[n]? = some i ∧
        Effect (method.setting host limit context) n i
          (method.point host limit arguments context n) outcome ∧
        method.point host limit arguments context (n + 1) = lastState outcome := by
  have room := method.pointRoom host limit arguments context n
  cases found : method.listing.instructions[n]? with
  | none =>
    have beyond := List.getElem?_eq_none_iff.mp found
    left
    simp only [point,List.take_of_length_le beyond,
      List.take_of_length_le (Nat.le_succ_of_le beyond)]
  | some i =>
    have below := (List.getElem?_eq_some_iff.mp found).1
    have longer : method.listing.instructions.take (n + 1) =
        method.listing.instructions.take n ++ [i] := by
      rw [List.take_add_one,found]
      rfl
    simp only [point] at room ⊢
    rw [longer,runAppend]
    cases first : (runFrom (method.setting host limit context) 0
        (method.listing.instructions.take n)).run (method.start arguments context) with
    | error e m => exact .inl rfl
    | ok u m =>
      rw [first] at room
      refine .inr ⟨i,_,rfl,stepEffect _ n i m room,?_⟩
      rw [List.length_take,Nat.min_eq_left (Nat.le_of_lt below),Nat.zero_add]
      simp only [runCons]
      cases (step (method.setting host limit context) n i).run m <;> rfl

variable {method host limit arguments context}

theorem pointInvariant (holds : Machine → Prop) (initial : holds (method.start arguments context))
    (kept : ∀ n i outcome, Effect (method.setting host limit context) n i
        (method.point host limit arguments context n) outcome →
      holds (method.point host limit arguments context n) → holds (lastState outcome)) (n : Nat) :
    holds (method.point host limit arguments context n) := by
  induction n with
  | zero => exact initial
  | succ n ih =>
    rcases method.pointStep host limit arguments context n with same | ⟨i,outcome,found,effect,next⟩
    · rw [same]
      exact ih
    · rw [next]
      exact kept n i outcome effect ih

variable (method host limit arguments context)

theorem executeContext :
    lastState ((execute host limit method arguments).run context) =
      (method.point host limit arguments context method.listing.instructions.length).context := by
  rw [executeRun,point,List.take_length]
  split <;> rename_i outcome <;> rw [outcome] <;> rfl

end Points
end CompiledMethod
end ScriptMachine
