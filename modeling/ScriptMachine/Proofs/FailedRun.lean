import ScriptMachine.Proofs.RunPoint
/-! A run that fails leaves what the instructions before the failing one did and
nothing of that instruction itself. What they did is said by running the method
cut off in front of it. -/
namespace ScriptMachine

namespace CompiledMethod

def truncate (method : CompiledMethod) (n : Nat) : CompiledMethod :=
  { method with
    listing := ⟨method.listing.code.take n,method.listing.lineTable.take n,
      by simp [method.listing.paired]⟩ }

theorem truncateInstructions (method : CompiledMethod) (n : Nat) :
    (method.truncate n).listing.instructions = method.listing.instructions.take n := by
  simp [truncate,Listing.instructions]

theorem truncateRun (method : CompiledMethod) (n : Nat) (host : Host) (limit : Nat)
    (context : Context) (offset : Nat) (code : List Instruction) :
    runFrom ((method.truncate n).setting host limit context) offset code =
      runFrom (method.setting host limit context) offset code := by
  induction code generalizing offset with
  | nil => rfl
  | cons i rest ih =>
    -- a step looks only at the locals and the accessors of the method
    have same : step ((method.truncate n).setting host limit context) offset i =
        step (method.setting host limit context) offset i := rfl
    simp only [runFrom,same,ih]

theorem executeTruncate (method : CompiledMethod) (n : Nat) (host : Host) (limit : Nat)
    (arguments : List Value) (context : Context) :
    (execute host limit (method.truncate n) arguments).run context =
      match (runFrom (method.setting host limit context) 0
          (method.listing.instructions.take n)).run (method.start arguments context) with
      | .ok _ m => .ok ⟨method.locals.map (·.name),m.locals,m.stack⟩ m.context
      | .error e m => .error e m.context := by
  rw [executeRun,truncateInstructions,truncateRun]
  rfl

end CompiledMethod

theorem runFailure {setting : Setting} {offset : Nat} {code : List Instruction} {m after : Machine}
    {e : RuntimeError} (failed : (runFrom setting offset code).run m = .error e after) :
    ∃ k i before, code[k]? = some i ∧
      (runFrom setting offset (code.take k)).run m = .ok () before ∧
      (step setting (offset + k) i).run before = .error e after := by
  induction code generalizing offset m with
  | nil => cases failed
  | cons i rest ih =>
    rw [runCons] at failed
    cases first : (step setting offset i).run m with
    | error e' next =>
      rw [first] at failed
      cases failed
      exact ⟨0,i,m,rfl,rfl,first⟩
    | ok u next =>
      rw [first] at failed
      obtain ⟨k,j,before,found,reached,last⟩ := ih failed
      refine ⟨k + 1,j,before,found,?_,?_⟩
      · rw [List.take_succ_cons,runCons,first]
        exact reached
      · rw [← Nat.add_right_comm] at last
        exact last

theorem runBeyond {setting : Setting} {offset n : Nat} {code : List Instruction}
    {m after : Machine} {e : RuntimeError}
    (failed : (runFrom setting offset (code.take n)).run m = .error e after) {further : Nat}
    (more : n ≤ further) : (runFrom setting offset (code.take further)).run m = .error e after := by
  have parts := List.take_append_drop n (code.take further)
  rw [List.take_take,Nat.min_eq_left more] at parts
  rw [← parts,runAppend,failed]

namespace Effect
variable {setting : Setting} {offset : Nat} {i : Instruction} {m after : Machine}
variable {e : RuntimeError}

theorem failureKeeps (effect : Effect setting offset i m (.error e after))
    (reads : setting.host.GettersKeep Heap.Within) (clean : setting.host.FailsCleanly) :
    after.context.store = m.context.store ∧
      after.context.environment = m.context.environment ∧
      m.context.heap.Within after.context.heap := by
  cases effect with
  | refused e stack located room => exact ⟨rfl,rfl,Heap.withinRefl _⟩
  | readRefused p reading op answered =>
    exact ⟨rfl,rfl,Property.readKeeps Heap.withinRefl reads answered⟩
  | writeRefused p v e left stack op failed room =>
    exact ⟨rfl,Property.writeFailsCleanly clean failed⟩

theorem failureLocated (effect : Effect setting offset i m (.error e after)) {place : Nat}
    (carried : e.offset? = some place) : place = offset := by
  cases effect with
  | refused e stack located room => exact Option.some.inj (carried.symm.trans located)
  | readRefused p reading op answered => exact (Option.some.inj carried).symm
  | writeRefused p v e left stack op failed room => cases carried

end Effect

/-- The failing instruction is the one at `k`: the method cut off in front of it
runs to its end, and cut off anywhere behind it fails in the same way. -/
theorem failureLeavesPrefix {host : Host} (reads : host.GettersKeep Heap.Within)
    (clean : host.FailsCleanly) (limit : Nat) (method : CompiledMethod) (arguments : List Value)
    (context : Context) {e : RuntimeError} {after : Context}
    (failed : (execute host limit method arguments).run context = .error e after) :
    ∃ k < method.listing.size, ∃ frame before,
      (execute host limit (method.truncate k) arguments).run context = .ok frame before ∧
      (∀ n, k < n →
        (execute host limit (method.truncate n) arguments).run context = .error e after) ∧
      after.store = before.store ∧ after.environment = before.environment ∧
      before.heap.Within after.heap ∧ (∀ offset, e.offset? = some offset → offset = k) := by
  rw [CompiledMethod.executeRun] at failed
  split at failed
  · cases failed
  · rename_i e' last ran
    cases failed
    obtain ⟨k,i,before,found,reached,stopped⟩ := runFailure ran
    rw [Nat.zero_add] at stopped
    have below := (List.getElem?_eq_some_iff.mp found).1
    have room := method.pointRoom host limit arguments context k
    rw [CompiledMethod.point,reached] at room
    have effect := stepEffect (method.setting host limit context) k i before room
    rw [stopped] at effect
    obtain ⟨store,environment,arrays⟩ := effect.failureKeeps reads clean
    have finished : (execute host limit (method.truncate k) arguments).run context =
        .ok ⟨method.locals.map (·.name),before.locals,before.stack⟩ before.context := by
      rw [CompiledMethod.executeTruncate,reached]
    have next : (runFrom (method.setting host limit context) 0
        (method.listing.instructions.take (k + 1))).run (method.start arguments context) =
        .error e last := by
      rw [List.take_add_one,found,runAppend,reached]
      simp only [Option.toList_some,List.length_take,Nat.min_eq_left (Nat.le_of_lt below),
        Nat.zero_add,runCons,stopped]
    refine ⟨k,by simpa [Listing.instructions,Listing.size] using below,_,_,finished,?_,store,
      environment,arrays,fun offset => effect.failureLocated⟩
    intro n beyond
    rw [CompiledMethod.executeTruncate,runBeyond next beyond]

def refusingHost : Host :=
  ⟨fun _ => false,0,fun _ _ heap => ⟨.null,heap⟩,fun _ owner _ => throw (.other owner)⟩

def refusedWrite : CompiledMethod :=
  ⟨"main",(Emitter.emitAll {} [.loadStore,.pushConst (.string "Key"),.pushNull,.call .storeSet,
    .callSetter 0]).listing,[],[⟨"P",none,some (.host 0 0 "P")⟩]⟩

theorem refusedWriteLeavesPrefix :
    refusingHost.GettersKeep Heap.Within ∧ refusingHost.FailsCleanly ∧
    ∃ after, (execute refusingHost 3 refusedWrite []).run {} = .error (.native (.other "P")) after ∧
      ∃ k < refusedWrite.listing.size, ∃ frame before,
        (execute refusingHost 3 (refusedWrite.truncate k) []).run {} = .ok frame before ∧
        (∀ n, k < n → (execute refusingHost 3 (refusedWrite.truncate n) []).run {} =
          .error (.native (.other "P")) after) ∧
        after.store = before.store ∧ after.environment = before.environment ∧
        before.heap.Within after.heap ∧
        ∀ offset, (RuntimeError.native (.other "P")).offset? = some offset → offset = k := by
  have reads : refusingHost.GettersKeep Heap.Within := fun _ _ heap => Heap.withinRefl heap
  have clean : refusingHost.FailsCleanly := by
    intro routine owner v s e after failed
    cases failed
    exact ⟨rfl,Heap.withinRefl _⟩
  exact ⟨reads,clean,_,rfl,failureLeavesPrefix reads clean 3 refusedWrite [] {} rfl⟩

end ScriptMachine
