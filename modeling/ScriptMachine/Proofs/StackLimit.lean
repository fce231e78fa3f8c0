import ScriptMachine.Proofs.CodeFlow
import ScriptMachine.Proofs.FailedRun
import ScriptMachine.Proofs.StackHeight
import ScriptMachine.Proofs.TypedMemory
/-! The limit of the stack. Nothing but a push looks at it, so that a higher limit
changes nothing in a run until the lower one refuses a push. -/
namespace ScriptMachine

def Overflowed {α : Type} (outcome : EStateM.Result RuntimeError Machine α) : Prop :=
  ∃ offset bound left, outcome = .error (.stackOverflow offset bound) left

def SameUnlessFull {α : Type} (low high : EStateM.Result RuntimeError Machine α) : Prop :=
  Overflowed low ∨ high = low

namespace SameUnlessFull
variable {α β : Type} {m : Machine}

theorem refl (outcome : EStateM.Result RuntimeError Machine α) : SameUnlessFull outcome outcome :=
  .inr rfl

theorem bind {x y : MachineM α} {f g : α → MachineM β} (first : SameUnlessFull (x.run m) (y.run m))
    (next : ∀ a s, SameUnlessFull ((f a).run s) ((g a).run s)) :
    SameUnlessFull ((x >>= f).run m) ((y >>= g).run m) := by
  simp only [EStateM.run,Bind.bind,EStateM.bind] at first next ⊢
  rcases first with ⟨offset,bound,left,full⟩ | same
  · rw [full]
    exact .inl ⟨offset,bound,left,rfl⟩
  · rw [same]
    cases x m with
    | ok a s => exact next a s
    | error e s => exact refl _

theorem after (x : MachineM α) {f g : α → MachineM β}
    (next : ∀ a s, SameUnlessFull ((f a).run s) ((g a).run s)) :
    SameUnlessFull ((x >>= f).run m) ((x >>= g).run m) :=
  (refl _).bind next

end SameUnlessFull

def Setting.limitedTo (setting : Setting) (limit : Nat) : Setting :=
  { setting with limit := limit }

namespace MachineM
variable {low high : Nat}

theorem pushSame (more : low ≤ high) (offset : Nat) (v : Value) (m : Machine) :
    SameUnlessFull ((push low offset v).run m) ((push high offset v).run m) := by
  by_cases room : m.stack.length < low
  · rw [pushRoom v room,pushRoom v (Nat.lt_of_lt_of_le room more)]
    exact .refl _
  · -- only here do the two part
    refine .inl ⟨offset,low,m,?_⟩
    simp only [push,EStateM.run]
    rw [if_pos (by omega)]

theorem intrinsicSame (more : low ≤ high) (offset : Nat) (routine : Intrinsic) (m : Machine) :
    SameUnlessFull ((callIntrinsic low offset routine).run m)
      ((callIntrinsic high offset routine).run m) := by
  cases routine with
  | force target =>
    refine .after _ fun v _ => .after _ ?_
    intro w s
    exact pushSame more offset w s
  | storeGet =>
    refine .after _ fun key _ => .after _ fun target _ => .after _ fun machine _ => .after _ ?_
    intro w s
    exact pushSame more offset w s
  | storeSet =>
    refine .after _ fun v _ => .after _ fun key _ => .after _ fun target _ => .after _ ?_
    intro machine _
    refine .after _ fun store _ => .after _ ?_
    intro u s
    exact pushSame more offset v s

theorem callGetterSame (more : low ≤ high) (setting : Setting) (offset : Nat) (i : Instruction)
    (m : Machine) :
    SameUnlessFull ((callGetter (setting.limitedTo low) offset i).run m)
      ((callGetter (setting.limitedTo high) offset i).run m) := by
  refine .after (accessorOf setting.method i offset) fun p _ => .after _ ?_
  intro machine s
  simp only [Setting.limitedTo]
  split
  · exact pushSame more offset .null s
  · refine .after _ ?_
    intro u s
    exact pushSame more offset _ s

theorem newArraySame (more : low ≤ high) (offset : Nat) (i : Instruction) (m : Machine) :
    SameUnlessFull ((newArray low offset i).run m) ((newArray high offset i).run m) := by
  unfold newArray
  split
  · refine .after _ ?_
    intro count s
    split
    · exact .after _ fun u s => .after _ fun machine _ => .after _ fun u s => pushSame more _ _ s
    · exact .after _ fun machine _ => .after _ fun u s => pushSame more _ _ s
  · exact .refl _

end MachineM

section Steps
variable {low high : Nat}

open MachineM in
theorem stepSame (more : low ≤ high) (setting : Setting) (offset : Nat) (i : Instruction)
    (m : Machine) :
    SameUnlessFull ((step (setting.limitedTo low) offset i).run m)
      ((step (setting.limitedTo high) offset i).run m) := by
  obtain ⟨op,operand⟩ := i
  cases op with
  | pushConst =>
    simp only [step,pushConst]
    split
    · exact pushSame more offset _ m
    · exact .refl _
  | pushNull | loadStore => exact pushSame more offset _ m
  | dup =>
    refine .after _ ?_
    intro machine s
    split
    · exact .refl _
    · exact pushSame more offset _ s
  | box =>
    refine .after _ ?_
    intro v s
    split
    · exact pushSame more offset _ s
    · exact .refl _
  | loadLocal =>
    refine .after _ fun slot _ => .after _ ?_
    intro machine s
    split
    · exact pushSame more offset _ s
    · exact .refl _
  | loadArgument =>
    simp only [step,loadArgument]
    split
    · exact pushSame more offset _ m
    · exact .refl _
  | callIntrinsic =>
    simp only [step]
    split
    · exact intrinsicSame more offset _ m
    · exact .refl _
  | callGetter => exact callGetterSame more setting offset _ m
  | newArray => exact newArraySame more offset _ m
  -- the others never push
  | pop | storeLocal | callSetter | storeElement => exact .refl _

theorem runSame (more : low ≤ high) (setting : Setting) (offset : Nat) (code : List Instruction)
    (m : Machine) :
    SameUnlessFull ((runFrom (setting.limitedTo low) offset code).run m)
      ((runFrom (setting.limitedTo high) offset code).run m) := by
  induction code generalizing offset m with
  | nil => exact .refl _
  | cons i rest ih => exact (stepSame more setting offset i m).bind fun _ s => ih (offset + 1) s

end Steps

theorem runHeight {setting : Setting} {offset : Nat} {code : List Instruction} {m last : Machine}
    (ran : (runFrom setting offset code).run m = .ok () last) :
    last.stack.length = heightAfter m.stack.length code := by
  induction code generalizing offset m with
  | nil =>
    cases ran
    rfl
  | cons i rest ih =>
    obtain ⟨_,next,stepped,later⟩ := bindOk ran
    rw [ih later,(stepMoves stepped).height]
    rfl

namespace CompiledMethod
variable {method : CompiledMethod} {host : Host} {limit : Nat} {arguments : List Value}
variable {context : Context} {n k : Nat} {m : Machine}

theorem Reaches.earlier (reached : method.Reaches host limit arguments context k m)
    (before : n ≤ k) : ∃ middle, method.Reaches host limit arguments context n middle := by
  unfold Reaches at reached ⊢
  cases ran : (runFrom (method.setting host limit context) 0
      (method.listing.instructions.take n)).run (method.start arguments context) with
  | ok u middle => exact ⟨middle,rfl⟩
  | error e left =>
    rw [runBeyond ran before] at reached
    cases reached

theorem Reaches.above {high : Nat} (more : limit ≤ high)
    (reached : method.Reaches host limit arguments context n m) :
    method.Reaches host high arguments context n m := by
  rcases runSame more (method.setting host limit context) 0 (method.listing.instructions.take n)
    (method.start arguments context) with ⟨offset,bound,left,full⟩ | same
  · cases reached.symm.trans full
  · exact same.trans reached

theorem executeFailed {e : RuntimeError} {after : Context}
    (failed : (execute host limit method arguments).run context = .error e after) :
    ∃ left, (runFrom (method.setting host limit context) 0 method.listing.instructions).run
      (method.start arguments context) = .error e left := by
  rw [executeRun] at failed
  split at failed
  · cases failed
  · rename_i left ran
    cases failed
    exact ⟨left,ran⟩

theorem overflowPlaced {bound : Nat} {after : Context}
    (full : (execute host limit method arguments).run context =
      .error (.stackOverflow k bound) after) :
    k < method.listing.size ∧ ∃ m, method.Reaches host limit arguments context k m := by
  obtain ⟨left,ran⟩ := executeFailed full
  obtain ⟨place,i,before,found,reached,stopped⟩ := runFailure ran
  rw [Nat.zero_add] at stopped
  have room := method.pointRoom host limit arguments context place
  rw [point,reached] at room
  have effect := stepEffect (method.setting host limit context) place i before room
  rw [stopped] at effect
  obtain rfl : k = place := effect.failureLocated rfl
  have inside := (List.getElem?_eq_some_iff.mp found).1
  exact ⟨by simpa [Listing.instructions,Listing.size] using inside,before,reached⟩

theorem executeSame {high : Nat} (more : limit ≤ high) (method : CompiledMethod)
    (arguments : List Value) (context : Context)
    (fits : ∀ offset bound after, (execute host limit method arguments).run context ≠
      .error (.stackOverflow offset bound) after) :
    (execute host high method arguments).run context =
      (execute host limit method arguments).run context := by
  have runs : SameUnlessFull
      ((runFrom (method.setting host limit context) 0 method.listing.instructions).run
        (method.start arguments context))
      ((runFrom (method.setting host high context) 0 method.listing.instructions).run
        (method.start arguments context)) :=
    runSame more (method.setting host limit context) 0 _ _
  rw [executeRun] at fits
  rw [executeRun,executeRun]
  rcases runs with ⟨offset,bound,left,full⟩ | same
  · rw [full] at fits
    exact (fits offset bound left.context rfl).elim
  · rw [same]

end CompiledMethod

theorem limitMattersByOverflowOnly (host : Host) {low high : Nat} (more : low ≤ high)
    (method : CompiledMethod) (arguments : List Value) (context : Context) :
    ((∀ offset bound after, (execute host low method arguments).run context ≠
        .error (.stackOverflow offset bound) after) →
      (execute host high method arguments).run context =
        (execute host low method arguments).run context) ∧
    (∀ k bound after,
      (execute host low method arguments).run context = .error (.stackOverflow k bound) after →
      k < method.listing.size ∧ ∀ n ≤ k, ∃ m, method.Reaches host low arguments context n m ∧
        method.Reaches host high arguments context n m) ∧
    ∀ n m, method.Reaches host low arguments context n m →
      m.stack.length = heightAfter 0 (method.listing.instructions.take n) := by
  refine ⟨CompiledMethod.executeSame more method arguments context,?_,?_⟩
  · intro k bound after full
    obtain ⟨inside,last,reached⟩ := CompiledMethod.overflowPlaced full
    refine ⟨inside,?_⟩
    intro n before
    obtain ⟨m,passed⟩ := reached.earlier before
    exact ⟨m,passed,passed.above more⟩
  · intro n m reached
    exact runHeight reached

def copiesArray : CompiledMethod :=
  ⟨"main",(Emitter.emitAll {} [.pushInt 1,.newArray .object,.dup,.dup,.dup]).listing,[],[]⟩

theorem copiesOverflowBelowFour :
    (3 ≤ 4 ∧ 4 ≤ 5) ∧
    (∃ after, (execute CompiledMethod.quietHost 3 copiesArray []).run {} =
        .error (.stackOverflow 4 3) after ∧ after.heap.size = 2 ∧
      ∀ n ≤ 4, ∃ m, copiesArray.Reaches CompiledMethod.quietHost 3 [] {} n m ∧
        copiesArray.Reaches CompiledMethod.quietHost 4 [] {} n m) ∧
    (∃ frame after, (execute CompiledMethod.quietHost 4 copiesArray []).run {} =
      .ok frame after) ∧
    (execute CompiledMethod.quietHost 5 copiesArray []).run {} =
      (execute CompiledMethod.quietHost 4 copiesArray []).run {} := by
  obtain ⟨_,alike,_⟩ :=
    limitMattersByOverflowOnly CompiledMethod.quietHost (by decide : 3 ≤ 4) copiesArray [] {}
  obtain ⟨same,_,_⟩ :=
    limitMattersByOverflowOnly CompiledMethod.quietHost (by decide : 4 ≤ 5) copiesArray [] {}
  obtain ⟨after,full,made⟩ : ∃ after,
      (execute CompiledMethod.quietHost 3 copiesArray []).run {} =
        .error (.stackOverflow 4 3) after ∧ after.heap.size = 2 := ⟨_,rfl,rfl⟩
  obtain ⟨frame,left,done⟩ : ∃ frame left,
      (execute CompiledMethod.quietHost 4 copiesArray []).run {} = .ok frame left := ⟨_,_,rfl⟩
  refine ⟨⟨by decide,by decide⟩,⟨after,full,made,(alike 4 3 after full).2⟩,⟨frame,left,done⟩,?_⟩
  refine same ?_
  intro offset bound after overflow
  cases done.symm.trans overflow

end ScriptMachine
