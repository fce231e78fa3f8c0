import ScriptMachine.Property.Builtin
/-! What may be relied on when a property is read or written. The routines of the
host are unknown, so each fact about them is a contract that the host keeps; the
built-in accessors touch no array and fail before they change anything, so that a
contract of the host's routines holds of every property. -/
namespace ScriptMachine

def lastState {ε σ α : Type} : EStateM.Result ε σ α → σ
  | .ok _ s => s
  | .error _ s => s

namespace Heap

def Within (old new : Heap) : Prop :=
  ∀ id cell, old.cell? id = some cell → new.cell? id = some cell

def SameShapes (old new : Heap) : Prop :=
  ∀ id cell, old.cell? id = some cell →
    ∃ later, new.cell? id = some later ∧ later.element = cell.element ∧
      later.items.size = cell.items.size

theorem withinRefl (heap : Heap) : heap.Within heap :=
  fun _ _ known => known

theorem cellBelow {heap : Heap} {id : ArrayId} {cell : ArrayCell}
    (known : heap.cell? id = some cell) : id < heap.size := by
  obtain ⟨below,_⟩ := Array.getElem?_eq_some_iff.mp known
  exact below

theorem withinAlloc (heap : Heap) (cell : ArrayCell) : heap.Within (heap.alloc cell).2 := by
  intro id old known
  rw [cellAlloc,if_neg (Nat.ne_of_lt (cellBelow known))]
  exact known

theorem Within.sameShapes {old new : Heap} (kept : old.Within new) : old.SameShapes new :=
  fun id cell known => ⟨cell,kept id cell known,rfl,rfl⟩

theorem sameShapesRefl (heap : Heap) : heap.SameShapes heap :=
  (withinRefl heap).sameShapes

theorem SameShapes.trans {first second third : Heap} (left : first.SameShapes second)
    (right : second.SameShapes third) : first.SameShapes third := by
  intro id cell known
  obtain ⟨next,found,element,size⟩ := left id cell known
  obtain ⟨last,there,sameElement,sameSize⟩ := right id next found
  exact ⟨last,there,sameElement.trans element,sameSize.trans size⟩

theorem sameShapesSetItem (heap : Heap) (id : ArrayId) (index : Nat) (v : Value) :
    heap.SameShapes (heap.setItem id index v) := by
  intro other cell known
  rw [cellSetItem]
  split
  · rw [known]
    exact ⟨_,rfl,rfl,Array.size_setIfInBounds⟩
  · exact ⟨cell,known,rfl,rfl⟩

end Heap

namespace Host

def GettersKeep (host : Host) (kept : Heap → Heap → Prop) : Prop :=
  ∀ routine env heap, kept heap (host.getter routine env heap).heap

def SettersKeep (host : Host) (kept : Heap → Heap → Prop) : Prop :=
  ∀ routine owner v s, kept s.heap (lastState ((host.setter routine owner v).run s)).heap

structure Keeps (host : Host) (kept : Heap → Heap → Prop) : Prop where
  getters : host.GettersKeep kept
  setters : host.SettersKeep kept

theorem Keeps.weaken {host : Host} {kept looser : Heap → Heap → Prop} (contract : host.Keeps kept)
    (weaker : ∀ old new, kept old new → looser old new) : host.Keeps looser :=
  ⟨fun routine env heap => weaker _ _ (contract.getters routine env heap),
    fun routine owner v s => weaker _ _ (contract.setters routine owner v s)⟩

def FailsCleanly (host : Host) : Prop :=
  ∀ routine owner v s e after, (host.setter routine owner v).run s = .error e after →
    after.environment = s.environment ∧ s.heap.Within after.heap

end Host

namespace SetterRef

inductive Calm (s : Surroundings) : EStateM.Result NativeError Surroundings Unit → Prop where
  | changed (env : Environment) : Calm s (.ok () { s with environment := env })
  | failed (e : NativeError) : Calm s (.error e s)

theorem writeCases (host : Host) (setter : SetterRef) (v : Value) (s : Surroundings) :
    Calm s ((setter.write host v).run s) ∨
      ∃ routine serial owner, setter = .host routine serial owner := by
  cases setter with
  | errorLevel => exact .inl (.changed _)
  | workingDir =>
    simp only [write,writeWorkingDir]
    split
    · exact .inl (.changed _)
    · exact .inl (.failed _)
  | titleMatchMode =>
    change Calm s ((writeTitleMatchMode v).run s) ∨ _
    unfold writeTitleMatchMode
    split
    · exact .inl (.changed _)
    · exact .inl (.changed _)
    · exact .inl (.failed _)
  | titleMatchSpeed =>
    change Calm s ((writeTitleMatchSpeed v).run s) ∨ _
    unfold writeTitleMatchSpeed
    split
    · exact .inl (.changed _)
    · exact .inl (.failed _)
  | host routine serial owner => exact .inr ⟨routine,serial,owner,rfl⟩

end SetterRef

namespace Property

theorem readKeeps {host : Host} {kept : Heap → Heap → Prop} (same : ∀ heap, kept heap heap)
    (contract : host.GettersKeep kept) {p : Property} {env : Environment} {heap : Heap}
    {reading : Reading} (answered : p.read host env heap = some reading) :
    kept heap reading.heap := by
  obtain ⟨getter,_,rfl⟩ := Option.map_eq_some_iff.mp answered
  cases getter with
  | host routine serial => exact contract routine env heap
  | errorLevel | workingDir | titleMatchMode | titleMatchSpeed | scriptName | tickCount =>
    exact same heap

theorem writeKeeps {host : Host} {kept : Heap → Heap → Prop} (same : ∀ heap, kept heap heap)
    (contract : host.SettersKeep kept) (p : Property) (v : Value) (s : Surroundings) :
    kept s.heap (lastState ((p.write host v).run s)).heap := by
  unfold write
  cases p.setter with
  | none => exact same s.heap
  | some setter =>
    rcases setter.writeCases host v s with calm | ⟨routine,serial,owner,rfl⟩
    · simp only
      generalize (setter.write host v).run s = outcome at calm
      cases calm with
      | changed env => exact same s.heap
      | failed e => exact same s.heap
    · exact contract routine owner v s

theorem writeFailsCleanly {host : Host} (clean : host.FailsCleanly) {p : Property} {v : Value}
    {s after : Surroundings} {e : NativeError}
    (failed : (p.write host v).run s = .error e after) :
    after.environment = s.environment ∧ s.heap.Within after.heap := by
  unfold write at failed
  cases found : p.setter with
  | none => rw [found] at failed; cases failed
  | some setter =>
    rw [found] at failed
    rcases setter.writeCases host v s with calm | ⟨routine,serial,owner,rfl⟩
    · simp only at failed
      rw [failed] at calm
      cases calm
      exact ⟨rfl,Heap.withinRefl _⟩
    · exact clean routine owner v s e after failed

end Property
end ScriptMachine
