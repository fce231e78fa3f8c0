import Mathlib.Logic.Relation
import ScriptMachine.Proofs.HostContract
import ScriptMachine.Value.Contents
/-! Arrays that hold arrays. A value refers to at most one array, an array holds
those that its elements refer to. What happens outside a set of arrays that is
closed under holding cannot make a cycle inside it, and an array that leads to no
cycle has finite contents. -/
namespace ScriptMachine
open Relation (TransGen ReflTransGen)

def Value.ref? : Value → Option ArrayId
  | array id => some id
  | boxed inner => inner.ref?
  | null | int _ | long _ | decimal _ | bool _ | string _ | store => none

namespace Value

theorem rawRef {v : Value} (raw : v.isRaw = true) : v.ref? = none := by
  cases v <;> first | rfl | cases raw

theorem initialRef (t : StaticType) : t.initial.ref? = none := by
  cases t <;> rfl

theorem asObjectRef (v : Value) : v.asObject.ref? = v.ref? := by
  cases v <;> rfl

end Value

namespace Heap

def Holds (heap : Heap) (a b : ArrayId) : Prop :=
  ∃ cell item, heap.cell? a = some cell ∧ item ∈ cell.items ∧ item.ref? = some b

def Acyclic (heap : Heap) (id : ArrayId) : Prop :=
  ∀ other, ReflTransGen heap.Holds id other → ¬ TransGen heap.Holds other other

structure Finite (heap : Heap) (v : Value) : Prop where
  acyclic : ∀ id, v.ref? = some id → heap.Acyclic id
  written : ∃ contents, heap.contents? v = some contents

theorem cellThere {heap : Heap} {id : ArrayId} (known : id < heap.size) :
    ∃ cell, heap.cell? id = some cell :=
  ⟨_,Array.getElem?_eq_getElem known⟩

theorem Holds.within {old new : Heap} {a b : ArrayId} (kept : old.Within new) (known : a < old.size)
    (holds : new.Holds a b) : old.Holds a b := by
  obtain ⟨cell,item,found,member,refers⟩ := holds
  obtain ⟨before,there⟩ := cellThere known
  rw [kept a before there] at found
  cases found
  exact ⟨_,item,there,member,refers⟩

theorem holdsAlloc {heap : Heap} {cell : ArrayCell} {a b : ArrayId}
    (holds : (heap.alloc cell).2.Holds a b) :
    heap.Holds a b ∨ a = heap.size ∧ ∃ item ∈ cell.items, item.ref? = some b := by
  obtain ⟨found,item,known,member,refers⟩ := holds
  rw [cellAlloc] at known
  split at known
  · rename_i last
    cases known
    exact .inr ⟨last,item,member,refers⟩
  · exact .inl ⟨found,item,known,member,refers⟩

theorem holdsSetItem {heap : Heap} {id index a b : Nat} {v : Value}
    (holds : (heap.setItem id index v).Holds a b) :
    heap.Holds a b ∨ a = id ∧ v.ref? = some b := by
  obtain ⟨found,item,known,member,refers⟩ := holds
  rw [cellSetItem] at known
  split at known
  · rename_i same
    obtain ⟨cell,there,rfl⟩ := Option.map_eq_some_iff.mp known
    rcases Array.mem_or_eq_of_mem_setIfInBounds member with old | rfl
    · exact .inl ⟨cell,item,there,old,refers⟩
    · exact .inr ⟨same.symm,refers⟩
  · exact .inl ⟨found,item,known,member,refers⟩

end Heap

structure Region (heap : Heap) (mine : ArrayId → Prop) : Prop where
  there : ∀ {id}, mine id → id < heap.size
  closed : ∀ {a b}, mine a → heap.Holds a b → mine b

namespace Region
variable {heap new : Heap} {mine : ArrayId → Prop} {a b : ArrayId}

theorem reached (region : Region heap mine) (inside : mine a)
    (leads : ReflTransGen heap.Holds a b) : mine b := by
  induction leads with
  | refl => exact inside
  | tail _ holds ih => exact region.closed ih holds

theorem unchanged (region : Region heap mine)
    (same : ∀ {x y}, mine x → new.Holds x y → heap.Holds x y) (inside : mine a)
    (leads : TransGen new.Holds a b) : TransGen heap.Holds a b ∧ mine b := by
  induction leads with
  | single holds =>
    have old := same inside holds
    exact ⟨.single old,region.closed inside old⟩
  | tail _ holds ih =>
    have old := same ih.2 holds
    exact ⟨.tail ih.1 old,region.closed ih.2 old⟩

end Region

theorem mapNone {α β : Type} {f : α → Option β} {items : List α} (none : items.mapM f = none) :
    ∃ item ∈ items, f item = .none := by
  induction items with
  | nil => cases none
  | cons item rest ih =>
    rw [List.mapM_cons] at none
    cases first : f item with
    | none => exact ⟨item,List.mem_cons_self,first⟩
    | some b =>
      cases others : rest.mapM f with
      | none =>
        obtain ⟨last,member,missing⟩ := ih others
        exact ⟨last,List.mem_cons_of_mem item member,missing⟩
      | some bs =>
        rw [first,others] at none
        cases none

theorem Contents.missingArray {arrays : ArrayId → Option Contents} {v : Value}
    (missing : ofValue? arrays v = none) : ∃ id, v.ref? = some id ∧ arrays id = none := by
  induction v with
  | boxed inner ih =>
    rw [ofValue?,Option.map_eq_none_iff] at missing
    exact ih missing
  | array id => exact ⟨id,rfl,missing⟩
  | null | int | long | decimal | bool | string | store => cases missing

namespace Region
variable {heap : Heap} {mine : ArrayId → Prop} {id : ArrayId}

theorem longPath (region : Region heap mine)
    (smooth : ∀ {id}, mine id → ¬ TransGen heap.Holds id id) {depth : Nat} (inside : mine id)
    (missing : heap.arrayContents? depth id = none) :
    ∃ path : List ArrayId, path.length = depth + 1 ∧ path.Nodup ∧
      ∀ x ∈ path, mine x ∧ ReflTransGen heap.Holds id x := by
  -- an element without contents of the smaller depth begins the rest of the path, and none of the
  -- path comes back to where it began
  induction depth generalizing id with
  | zero => exact ⟨[id],rfl,by simp,by simpa using ⟨inside,.refl⟩⟩
  | succ depth ih =>
    obtain ⟨cell,there⟩ := Heap.cellThere (region.there inside)
    have lacking : cell.items.toList.mapM
        (Contents.ofValue? (heap.arrayContents? depth)) = none := by
      cases written : cell.items.toList.mapM (Contents.ofValue? (heap.arrayContents? depth)) with
      | none => rfl
      | some items => simp [Heap.arrayContents?,there,written] at missing
    obtain ⟨item,member,unwritten⟩ := mapNone lacking
    obtain ⟨next,refers,shallow⟩ := Contents.missingArray unwritten
    have holds : heap.Holds id next := ⟨cell,item,there,Array.mem_toList_iff.mp member,refers⟩
    obtain ⟨path,length,nodup,along⟩ := ih (region.closed inside holds) shallow
    refine ⟨id :: path,by simp [length],List.nodup_cons.mpr ⟨?_,nodup⟩,?_⟩
    · intro again
      exact smooth inside (.head' holds (along id again).2)
    · intro x member
      rcases List.mem_cons.mp member with rfl | later
      · exact ⟨inside,.refl⟩
      · exact ⟨(along x later).1,.head holds (along x later).2⟩

theorem hasContents (region : Region heap mine)
    (smooth : ∀ {id}, mine id → ¬ TransGen heap.Holds id id) {v : Value}
    (inside : ∀ id, v.ref? = some id → mine id) : ∃ contents, heap.contents? v = some contents := by
  cases found : heap.contents? v with
  | some contents => exact ⟨contents,rfl⟩
  | none =>
    obtain ⟨id,refers,missing⟩ := Contents.missingArray found
    obtain ⟨path,length,nodup,along⟩ := region.longPath smooth (inside id refers) missing
    have within : path ⊆ List.range heap.size :=
      fun x member => List.mem_range.mpr (region.there (along x member).1)
    have short := nodup.length_le_of_subset within
    rw [List.length_range] at short
    omega

theorem finite (region : Region heap mine)
    (smooth : ∀ {id}, mine id → ¬ TransGen heap.Holds id id) {v : Value}
    (inside : ∀ id, v.ref? = some id → mine id) : heap.Finite v := by
  refine ⟨?_,region.hasContents smooth inside⟩
  intro id refers other leads
  exact smooth (region.reached (inside id refers) leads)

end Region

end ScriptMachine
