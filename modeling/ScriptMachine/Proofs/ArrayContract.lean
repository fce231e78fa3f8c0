import ScriptMachine.Proofs.ArrayGraph
/-! What accessors may do with arrays. A routine of the host changes no array,
and passes on only arrays that it keeps for itself, reaches from what it is
given or makes; those that it makes are not cyclic. The built-in accessors pass
on what they are given and make none. -/
namespace ScriptMachine
open Relation (TransGen ReflTransGen)

def AtHand (own : ArrayId → Prop) (s : Surroundings) (given : Value) (id : ArrayId) : Prop :=
  own id ∨ s.environment.errorLevel.ref? = some id ∨ given.ref? = some id

structure Surroundings.Whole (s : Surroundings) (own : ArrayId → Prop) (given : Value) : Prop where
  held : ∀ {a b}, s.heap.Holds a b → b < s.heap.size
  atHand : ∀ {id}, AtHand own s given id → id < s.heap.size

structure Carefully (own : ArrayId → Prop) (s : Surroundings) (given : Value) (after : Heap)
    (out : Value) : Prop where
  kept : s.heap.Within after
  passed : ∀ {id}, (out.ref? = some id ∨ ∃ a, s.heap.size ≤ a ∧ after.Holds a id) →
    s.heap.size ≤ id ∧ id < after.size ∨
      ∃ root, AtHand own s given root ∧ ReflTransGen s.heap.Holds root id
  smooth : ∀ {id}, s.heap.size ≤ id → ¬ TransGen after.Holds id id

structure Host.Careful (host : Host) (own : ArrayId → Prop) : Prop where
  getters : ∀ routine (s : Surroundings), s.Whole own .null →
    Carefully own s .null (host.getter routine s.environment s.heap).heap
      (host.getter routine s.environment s.heap).value
  setters : ∀ routine owner v (s : Surroundings), s.Whole own v →
    Carefully own s v (lastState ((host.setter routine owner v).run s)).heap
      (lastState ((host.setter routine owner v).run s)).environment.errorLevel

section Routines
variable {own : ArrayId → Prop} {s : Surroundings} {given out : Value} {host : Host}

theorem Heap.emptyBeyond {heap : Heap} {a b : ArrayId} (beyond : heap.size ≤ a) :
    ¬ heap.Holds a b := by
  rintro ⟨cell,item,known,member,refers⟩
  exact Nat.not_lt.mpr beyond (cellBelow known)

theorem Carefully.idle (atHand : ∀ id, out.ref? = some id → AtHand own s given id) :
    Carefully own s given s.heap out := by
  refine ⟨Heap.withinRefl s.heap,?_,?_⟩
  · intro id passed
    rcases passed with refers | ⟨a,beyond,holds⟩
    · exact .inr ⟨id,atHand id refers,.refl⟩
    · exact absurd holds (Heap.emptyBeyond beyond)
  · intro id beyond loop
    obtain ⟨next,holds,_⟩ := TransGen.head'_iff.mp loop
    exact Heap.emptyBeyond beyond holds

theorem GetterRef.readCareful (careful : host.Careful own) (getter : GetterRef)
    (whole : s.Whole own .null) :
    Carefully own s .null (getter.read host s.environment s.heap).heap
      (getter.read host s.environment s.heap).value := by
  cases getter with
  | host routine serial => exact careful.getters routine s whole
  | errorLevel => exact .idle fun id refers => .inr (.inl refers)
  | workingDir | titleMatchMode | titleMatchSpeed | scriptName | tickCount => exact .idle nofun

theorem Property.readCareful (careful : host.Careful own) {p : Property} {reading : Reading}
    (whole : s.Whole own .null)
    (answered : p.read host s.environment s.heap = some reading) :
    Carefully own s .null reading.heap reading.value := by
  obtain ⟨getter,found,rfl⟩ := Option.map_eq_some_iff.mp answered
  obtain ⟨kept,passed,smooth⟩ := getter.readCareful careful whole
  refine ⟨kept,?_,smooth⟩
  intro id
  rw [Value.asObjectRef]
  exact passed

theorem SetterRef.writeLevel (host : Host) (setter : SetterRef) (v : Value) (s : Surroundings) :
    ((lastState ((setter.write host v).run s)).heap = s.heap ∧
      ((lastState ((setter.write host v).run s)).environment.errorLevel = v ∨
        (lastState ((setter.write host v).run s)).environment.errorLevel =
          s.environment.errorLevel)) ∨
      ∃ routine serial owner, setter = .host routine serial owner := by
  cases setter with
  | errorLevel => exact .inl ⟨rfl,.inl rfl⟩
  | workingDir =>
    simp only [write,writeWorkingDir]
    split <;> exact .inl ⟨rfl,.inr rfl⟩
  | titleMatchMode =>
    unfold write
    simp only
    unfold writeTitleMatchMode
    split <;> exact .inl ⟨rfl,.inr rfl⟩
  | titleMatchSpeed =>
    unfold write
    simp only
    unfold writeTitleMatchSpeed
    split <;> exact .inl ⟨rfl,.inr rfl⟩
  | host routine serial owner => exact .inr ⟨routine,serial,owner,rfl⟩

theorem Property.writeCareful (careful : host.Careful own) (p : Property) {v : Value}
    (whole : s.Whole own v) :
    Carefully own s v (lastState ((p.write host v).run s)).heap
      (lastState ((p.write host v).run s)).environment.errorLevel := by
  unfold write
  cases p.setter with
  | none => exact .idle fun id refers => .inr (.inl refers)
  | some setter =>
    simp only
    rcases setter.writeLevel host v s with ⟨heap,level⟩ | ⟨routine,serial,owner,rfl⟩
    · rw [heap]
      rcases level with level | level <;> rw [level]
      · exact .idle fun id refers => .inr (.inr refers)
      · exact .idle fun id refers => .inr (.inl refers)
    · exact careful.setters routine owner v s whole

end Routines
end ScriptMachine
