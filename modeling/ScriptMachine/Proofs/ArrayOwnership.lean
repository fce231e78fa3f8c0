import ScriptMachine.Proofs.ArrayContract
import ScriptMachine.Proofs.CodeFlow
/-! Who refers to an array while its literal is filling it. Nothing but the stack
does: the array is the literal's own until it is finished. All other values refer
to arrays of one region, which is closed under holding, so that filling an array
changes nothing in the region and an array that is finished joins it. -/
namespace ScriptMachine
open Relation (TransGen ReflTransGen)

inductive Context.Names (context : Context) (id : ArrayId) : Prop where
  | key {name v} (found : context.store.get? name = some v) (refers : v.ref? = some id)
  | level (refers : context.environment.errorLevel.ref? = some id)

namespace Machine

def Names (m : Machine) (id : ArrayId) : Prop :=
  (∃ v ∈ m.locals, v.ref? = some id) ∨ m.context.Names id

def Shares (m : Machine) (id : ArrayId) : Prop :=
  m.Names id ∨ ∃ other, m.context.heap.Holds other id

variable {m : Machine} {id : ArrayId}

theorem namesWithLocal {slot : Nat} {v : Value} (names : (m.withLocal slot v).Names id) :
    m.Names id ∨ v.ref? = some id := by
  rcases names with ⟨w,member,refers⟩ | names
  · rcases List.mem_or_eq_of_mem_set member with old | rfl
    · exact .inl (.inl ⟨w,old,refers⟩)
    · exact .inr refers
  · exact .inl (.inr names)

theorem namesWithStore {key : String} {v : Value}
    (names : (m.withStore (m.context.store.set key v)).Names id) :
    m.Names id ∨ v.ref? = some id := by
  rcases names with slot | names
  · exact .inl (.inl slot)
  · cases names with
    | key found refers =>
      rcases Store.setEntries found with old | ⟨_,rfl⟩
      · exact .inl (.inr (.key old refers))
      · exact .inr refers
    | level refers => exact .inl (.inr (.level refers))

theorem namesWithHeap {heap : Heap} (names : (m.withHeap heap).Names id) : m.Names id := by
  rcases names with slot | names
  · exact .inl slot
  · cases names with
    | key found refers => exact .inr (.key found refers)
    | level refers => exact .inr (.level refers)

theorem namesWithSurroundings {s : Surroundings} (names : (m.withSurroundings s).Names id) :
    m.Names id ∨ s.environment.errorLevel.ref? = some id := by
  rcases names with slot | names
  · exact .inl (.inl slot)
  · cases names with
    | key found refers => exact .inl (.inr (.key found refers))
    | level refers => exact .inr refers

end Machine

theorem Heap.Within.sizes {old new : Heap} (kept : old.Within new) : old.size ≤ new.size := by
  cases size : old.size with
  | zero => exact Nat.zero_le _
  | succ n =>
    obtain ⟨cell,there⟩ := cellThere (show n < old.size by omega)
    exact cellBelow (kept n cell there)

theorem Heap.Within.trans {first second third : Heap} (left : first.Within second)
    (right : second.Within third) : first.Within third :=
  fun id cell known => right id cell (left id cell known)

theorem Heap.sizeSetItem (heap : Heap) (id : ArrayId) (index : Nat) (v : Value) :
    (heap.setItem id index v).size = heap.size := by
  simp [setItem,size]

/-- The arrays `built` are being filled; all else refers to arrays that are `mine`.
`first` is the heap at the start, and `smooth` says that nothing was cyclic there. -/
structure Owned (smooth : Prop) (own : ArrayId → Prop) (first : Heap) (arguments : ArrayId)
    (mine : ArrayId → Prop) (built : List ArrayId) (m : Machine) : Prop where
  kept : first.Within m.context.heap
  region : Region m.context.heap mine
  smooth : smooth → ∀ {id}, mine id → ¬ TransGen m.context.heap.Holds id id
  apart : ∀ {id}, id ∈ built → first.size ≤ id ∧ id < m.context.heap.size ∧ ¬ mine id
  filled : ∀ {a b}, a ∈ built → m.context.heap.Holds a b → mine b
  held : ∀ {a b}, m.context.heap.Holds a b → mine b ∨ b < first.size
  own : ∀ {id}, own id → mine id
  arguments : mine arguments
  names : ∀ {id}, m.Names id → mine id

namespace Owned
variable {smooth : Prop} {own mine : ArrayId → Prop} {first : Heap} {arguments : ArrayId}
variable {built : List ArrayId} {m next : Machine} {id : ArrayId}

theorem unshared (owned : Owned smooth own first arguments mine built m) (member : id ∈ built) :
    ¬ m.Shares id := by
  obtain ⟨late,known,outside⟩ := owned.apart member
  rintro (names | ⟨other,holds⟩)
  · exact outside (owned.names names)
  · rcases owned.held holds with inside | early
    · exact outside inside
    · exact Nat.not_lt.mpr late early

theorem sharedKnown (owned : Owned smooth own first arguments mine built m)
    (shares : m.Shares id) : id < m.context.heap.size := by
  rcases shares with names | ⟨other,holds⟩
  · exact owned.region.there (owned.names names)
  · rcases owned.held holds with inside | early
    · exact owned.region.there inside
    · exact Nat.lt_of_lt_of_le early owned.kept.sizes

theorem rename (owned : Owned smooth own first arguments mine built m)
    (heap : next.context.heap = m.context.heap) (names : ∀ {id}, next.Names id → mine id) :
    Owned smooth own first arguments mine built next := by
  obtain ⟨kept,region,flat,apart,filled,held,mineOwn,inside,_⟩ := owned
  rw [← heap] at kept region flat apart filled held
  exact ⟨kept,region,flat,apart,filled,held,mineOwn,inside,names⟩

theorem publish {done : List ArrayId}
    (owned : Owned smooth own first arguments mine (done ++ built) m)
    (apart : ∀ id ∈ done, id ∉ built) :
    Owned smooth own first arguments (fun x => x ∈ done ∨ mine x) built m := by
  have leads : ∀ {a b}, a ∈ done → m.context.heap.Holds a b → mine b :=
    fun member => owned.filled (List.mem_append_left built member)
  refine ⟨owned.kept,⟨?_,?_⟩,?_,?_,?_,?_,?_,.inr owned.arguments,?_⟩
  · rintro x (member | inside)
    · exact (owned.apart (List.mem_append_left built member)).2.1
    · exact owned.region.there inside
  · rintro a b (member | inside) holds
    · exact .inr (leads member holds)
    · exact .inr (owned.region.closed inside holds)
  · rintro flat x (member | inside) loop
    -- the way back to a finished array would be inside the region, where nothing refers to it
    · obtain ⟨y,holds,back⟩ := TransGen.head'_iff.mp loop
      have outside := (owned.apart (List.mem_append_left built member)).2.2
      exact outside (owned.region.reached (leads member holds) back)
    · exact owned.smooth flat inside loop
  · intro x member
    obtain ⟨later,there,without⟩ := owned.apart (List.mem_append_right done member)
    refine ⟨later,there,?_⟩
    rintro (finished | inside)
    · exact apart x finished member
    · exact without inside
  · intro a b member holds
    exact .inr (owned.filled (List.mem_append_right done member) holds)
  · intro a b holds
    exact (owned.held holds).imp_left .inr
  · intro x mineOwn
    exact .inr (owned.own mineOwn)
  · intro x names
    exact .inr (owned.names names)

theorem allocate (owned : Owned smooth own first arguments mine built m) (element : StaticType)
    (count : Nat) :
    Owned smooth own first arguments mine (m.context.heap.size :: built)
      (m.withHeap (m.context.heap.alloc ⟨element,Array.replicate count element.initial⟩).2) := by
  have old : ∀ {a b}, (m.context.heap.alloc ⟨element,Array.replicate count element.initial⟩).2.Holds
      a b → m.context.heap.Holds a b := by
    intro a b holds
    rcases Heap.holdsAlloc holds with old | ⟨_,item,member,refers⟩
    · exact old
    · rw [(Array.mem_replicate.mp member).2,Value.initialRef] at refers
      cases refers
  have within := m.context.heap.withinAlloc ⟨element,Array.replicate count element.initial⟩
  have last := Nat.lt_of_lt_of_eq (Nat.lt_succ_self m.context.heap.size)
    (m.context.heap.sizeAlloc ⟨element,Array.replicate count element.initial⟩).symm
  refine ⟨owned.kept.trans within,⟨?_,?_⟩,?_,?_,?_,?_,owned.own,owned.arguments,
    fun names => owned.names (Machine.namesWithHeap names)⟩
  · intro x inside
    exact Nat.lt_of_lt_of_le (owned.region.there inside) within.sizes
  · intro a b inside holds
    exact owned.region.closed inside (old holds)
  · intro flat x inside loop
    exact owned.smooth flat inside (owned.region.unchanged (fun _ => old) inside loop).1
  · intro x member
    rcases List.mem_cons.mp member with rfl | later
    · exact ⟨owned.kept.sizes,last,fun inside => Nat.lt_irrefl _ (owned.region.there inside)⟩
    · obtain ⟨late,there,outside⟩ := owned.apart later
      exact ⟨late,Nat.lt_of_lt_of_le there within.sizes,outside⟩
  · intro a b member holds
    rcases List.mem_cons.mp member with rfl | later
    · exact absurd (old holds) (Heap.emptyBeyond (Nat.le_refl _))
    · exact owned.filled later (old holds)
  · intro a b holds
    exact owned.held (old holds)

theorem fill (owned : Owned smooth own first arguments mine built m) (member : id ∈ built)
    (index : Nat) {v : Value} (inside : ∀ x, v.ref? = some x → mine x) :
    Owned smooth own first arguments mine built
      (m.withHeap (m.context.heap.setItem id index v)) := by
  obtain ⟨late,known,outside⟩ := owned.apart member
  have size := m.context.heap.sizeSetItem id index v
  have same : ∀ {a b}, mine a → (m.context.heap.setItem id index v).Holds a b →
      m.context.heap.Holds a b := by
    intro a b within holds
    rcases Heap.holdsSetItem holds with old | ⟨rfl,_⟩
    · exact old
    · exact absurd within outside
  refine ⟨?_,⟨?_,?_⟩,?_,?_,?_,?_,owned.own,owned.arguments,
    fun names => owned.names (Machine.namesWithHeap names)⟩
  · intro x cell early
    have different : id ≠ x := Nat.ne_of_gt (Nat.lt_of_lt_of_le (Heap.cellBelow early) late)
    simp only [Machine.withHeap]
    rw [Heap.cellSetItem,if_neg different]
    exact owned.kept x cell early
  · intro x within
    simp only [Machine.withHeap]
    rw [size]
    exact owned.region.there within
  · intro a b within holds
    exact owned.region.closed within (same within holds)
  · intro flat x within loop
    exact owned.smooth flat within (owned.region.unchanged same within loop).1
  · intro x later
    simp only [Machine.withHeap]
    rw [size]
    exact owned.apart later
  · intro a b later holds
    rcases Heap.holdsSetItem holds with old | ⟨_,refers⟩
    · exact owned.filled later old
    · exact inside b refers
  · intro a b holds
    rcases Heap.holdsSetItem holds with old | ⟨_,refers⟩
    · exact owned.held old
    · exact .inl (inside b refers)

theorem whole (owned : Owned smooth own first arguments mine built m) {given : Value}
    (inside : ∀ x, given.ref? = some x → mine x) : m.surroundings.Whole own given := by
  constructor
  · intro a b holds
    exact owned.sharedKnown (.inr ⟨a,holds⟩)
  · rintro x (kept | level | refers)
    · exact owned.region.there (owned.own kept)
    · exact owned.region.there (owned.names (.inr (.level level)))
    · exact owned.region.there (inside x refers)

theorem native (owned : Owned smooth own first arguments mine built m) {given out : Value}
    {after : Heap} (inside : ∀ x, given.ref? = some x → mine x)
    (careful : Carefully own m.surroundings given after out) :
    Owned smooth own first arguments
        (fun x => mine x ∨ m.context.heap.size ≤ x ∧ x < after.size) built (m.withHeap after) ∧
      ∀ x, out.ref? = some x → mine x ∨ m.context.heap.size ≤ x ∧ x < after.size := by
  have kept : m.context.heap.Within after := careful.kept
  have passed : ∀ {x}, (out.ref? = some x ∨ ∃ a, m.context.heap.size ≤ a ∧ after.Holds a x) →
      mine x ∨ m.context.heap.size ≤ x ∧ x < after.size := by
    intro x given
    rcases careful.passed given with made | ⟨root,atHand,leads⟩
    · exact .inr made
    · refine .inl (owned.region.reached ?_ leads)
      rcases atHand with mineOwn | level | refers
      · exact owned.own mineOwn
      · exact owned.names (.inr (.level level))
      · exact inside root refers
  have old : ∀ {a b}, mine a → after.Holds a b → m.context.heap.Holds a b :=
    fun within holds => holds.within kept (owned.region.there within)
  refine ⟨⟨owned.kept.trans kept,⟨?_,?_⟩,?_,?_,?_,?_,fun mineOwn => .inl (owned.own mineOwn),
    .inl owned.arguments,fun names => .inl (owned.names (Machine.namesWithHeap names))⟩,
    fun x refers => passed (.inl refers)⟩
  · rintro x (within | ⟨_,below⟩)
    · exact Nat.lt_of_lt_of_le (owned.region.there within) kept.sizes
    · exact below
  · rintro a b (within | ⟨beyond,_⟩) holds
    · exact .inl (owned.region.closed within (old within holds))
    · exact passed (.inr ⟨a,beyond,holds⟩)
  · rintro flat x (within | ⟨beyond,_⟩) loop
    · exact owned.smooth flat within (owned.region.unchanged old within loop).1
    · exact careful.smooth beyond loop
  · intro x member
    obtain ⟨late,there,outside⟩ := owned.apart member
    refine ⟨late,Nat.lt_of_lt_of_le there kept.sizes,?_⟩
    rintro (within | ⟨beyond,_⟩)
    · exact outside within
    · exact Nat.not_lt.mpr beyond there
  · intro a b member holds
    exact .inl (owned.filled member (holds.within kept (owned.apart member).2.1))
  · intro a b holds
    by_cases known : a < m.context.heap.size
    · exact (owned.held (holds.within kept known)).imp_left .inl
    · exact .inl (passed (.inr ⟨a,Nat.not_lt.mp known,holds⟩))

theorem read {host : Host} (careful : host.Careful own)
    (owned : Owned smooth own first arguments mine built m) {p : Property} {reading : Reading}
    (answered : p.read host m.context.environment m.context.heap = some reading)
    (stack : List Value) :
    ∃ more, (∀ x, mine x → more x) ∧ (∀ x, reading.value.ref? = some x → more x) ∧
      Owned smooth own first arguments more built
        ((m.withStack stack).withHeap reading.heap) := by
  have nothing : ∀ x, Value.null.ref? = some x → mine x := nofun
  have answer := Property.readCareful careful (owned.whole nothing) answered
  obtain ⟨joined,inside⟩ := owned.native nothing answer
  exact ⟨_,fun x => .inl,inside,joined.rename rfl joined.names⟩

theorem written {host : Host} (careful : host.Careful own)
    (owned : Owned smooth own first arguments mine built m) (p : Property) {v : Value}
    (inside : ∀ x, v.ref? = some x → mine x) (stack : List Value) :
    ∃ more, (∀ x, mine x → more x) ∧
      Owned smooth own first arguments more built ((m.withStack stack).withSurroundings
        (lastState ((p.write host v).run m.surroundings))) := by
  have write := Property.writeCareful careful p (owned.whole inside)
  obtain ⟨joined,level⟩ := owned.native inside write
  refine ⟨_,fun x => .inl,joined.rename rfl ?_⟩
  intro id names
  exact (Machine.namesWithSurroundings names).elim (fun old => .inl (owned.names old)) (level id)

end Owned

/-- The stack as its kinds say: of the arrays that are built, each has its
place where it is built and at most a copy above that. -/
inductive Laid (mine : ArrayId → Prop) : List Kind → List Value → List ArrayId → Prop where
  | nil : Laid mine [] [] []
  | value {type v kinds stack built} (inside : ∀ id, v.ref? = some id → mine id)
      (rest : Laid mine kinds stack built) : Laid mine (.value type :: kinds) (v :: stack) built
  | store {kinds stack built} (rest : Laid mine kinds stack built) :
      Laid mine (.store :: kinds) (.store :: stack) built
  | building {element id kinds stack built} (other : id ∉ built)
      (rest : Laid mine kinds stack built) :
      Laid mine (.building element :: kinds) (.array id :: stack) (id :: built)
  | target {element id kinds stack built}
      (rest : Laid mine (.building element :: kinds) (.array id :: stack) (id :: built)) :
      Laid mine (.target element :: .building element :: kinds) (.array id :: .array id :: stack)
        (id :: built)

theorem Laid.widen {mine more : ArrayId → Prop} {kinds : List Kind} {stack : List Value}
    {built : List ArrayId} (laid : Laid mine kinds stack built) (wider : ∀ id, mine id → more id) :
    Laid more kinds stack built := by
  induction laid with
  | nil => exact .nil
  | value inside rest ih => exact .value (fun id refers => wider id (inside id refers)) ih
  | store rest ih => exact .store ih
  | building other rest ih => exact .building other ih
  | target rest ih => exact .target ih

theorem noRef {v : Value} (none : v.ref? = none) {mine : ArrayId → Prop} :
    ∀ id, v.ref? = some id → mine id := by
  intro id refers
  rw [none] at refers
  cases refers

theorem constantRef (c : Constant) : c.value.ref? = none := by
  cases c <;> rfl

theorem convertRef (v : Value) (target : Scalar) : (v.convert target).ref? = none := by
  cases target <;> rfl

structure Held (smooth : Prop) (own : ArrayId → Prop) (first : Heap) (setting : Setting)
    (mine : ArrayId → Prop) (built : List ArrayId) (a : Stage) (m : Machine) : Prop where
  owned : Owned smooth own first setting.arguments mine built m
  laid : Laid mine a.stack m.stack built

namespace Held
variable {smooth : Prop} {own mine : ArrayId → Prop} {first : Heap} {setting : Setting}
variable {built : List ArrayId} {a b : Stage} {m next : Machine}

theorem adjusting {implicit : StaticType} (adjusts : Adjusts setting.method implicit a b)
    (held : Held smooth own first setting mine built a m) :
    ∃ more left, left ⊆ built ∧ Held smooth own first setting more left b m := by
  obtain ⟨owned,laid⟩ := held
  obtain ⟨locals,stack,context⟩ := m
  cases adjusts with
  | bind slotted typed => exact ⟨mine,built,List.Subset.refl _,owned,laid⟩
  | publish =>
    cases laid with
    | @building element id kinds stack built other rest =>
      have finished : Owned smooth own first setting.arguments mine ([id] ++ built) _ := owned
      have published := finished.publish fun x member => by
        rw [List.mem_singleton.mp member]
        exact other
      refine ⟨_,_,List.subset_cons_self _ _,published,.value ?_ (rest.widen fun x => .inr)⟩
      rintro x ⟨⟩
      exact .inl List.mem_cons_self
  | asObject reference =>
    cases laid with
    | value inside rest => exact ⟨mine,built,List.Subset.refl _,owned,.value inside rest⟩
  | asObjects =>
    cases laid with
    | value inside rest => exact ⟨mine,built,List.Subset.refl _,owned,.value inside rest⟩

theorem restack (held : Held smooth own first setting mine built a m) {kinds : List Kind}
    {stack : List Value} {bound : Nat} (laid : Laid mine kinds stack built) :
    Held smooth own first setting mine built ⟨bound,kinds⟩ (m.withStack stack) :=
  ⟨held.owned.rename rfl held.owned.names,laid⟩

theorem storeLocal (held : Held smooth own first setting mine built a m) {kinds : List Kind}
    {stack : List Value} {bound slot : Nat} {v : Value} (inside : ∀ id, v.ref? = some id → mine id)
    (laid : Laid mine kinds stack built) :
    Held smooth own first setting mine built ⟨bound,kinds⟩ ((m.withStack stack).withLocal slot v) := by
  refine ⟨held.owned.rename rfl ?_,laid⟩
  intro id names
  exact (Machine.namesWithLocal names).elim held.owned.names (inside id)

theorem storedValue {store : Store} (owned : Owned smooth own first setting.arguments mine built m)
    (same : m.context.store = store) (key : String) :
    ∀ id, (store.get key).ref? = some id → mine id := by
  intro id refers
  unfold Store.get at refers
  cases found : store.get? key with
  | none =>
    rw [found] at refers
    cases refers
  | some v =>
    rw [found] at refers
    exact owned.names (.inr (.key (same ▸ found) refers))

end Held

structure Builds (built left : List ArrayId) (i : Instruction) (m next : Machine) : Prop where
  grown : m.context.heap.size ≤ next.context.heap.size
  origin : ∀ id ∈ left, id ∈ built ∨
    id = m.context.heap.size ∧ next.stack.head? = some (.array id) ∧ ∃ element, i = .newArray element

theorem Builds.none {built : List ArrayId} {i : Instruction} {m next : Machine}
    (grown : m.context.heap.size ≤ next.context.heap.size) : Builds built built i m next :=
  ⟨grown,fun _ member => .inl member⟩

def OpCode.changesHeap : OpCode → Bool
  | callGetter | callSetter | newArray | storeElement => true
  | _ => false

theorem Moves.keepsHeap {setting : Setting} {i : Instruction} {m next : Machine}
    (moves : Moves setting m i next) (plain : i.op.changesHeap = false) :
    m.context.heap.size ≤ next.context.heap.size := by
  cases moves with
  | readNothing | read | wrote | newArray | storeElement => cases plain
  | pushConst | pushNull | pop | dup | box | loadLocal | storeLocal | loadArgument | loadStore
  | force | storeGet | storeSet => exact Nat.le_refl _

namespace Held
variable {smooth : Prop} {own mine : ArrayId → Prop} {first : Heap} {setting : Setting}
variable {built : List ArrayId} {a b : Stage} {m next : Machine}

theorem kept {i : Instruction} (held : Held smooth own first setting mine built b next)
    (grown : m.context.heap.size ≤ next.context.heap.size) :
    ∃ more left, Held smooth own first setting more left b next ∧ Builds built left i m next :=
  ⟨mine,built,held,.none grown⟩

section Opcodes
variable {bound : Nat} {kinds : List Kind} {type element : StaticType} {operand : Option Operand}

theorem copying (held : Held smooth own first setting mine built ⟨bound,.value type :: kinds⟩ m)
    (moves : Moves setting m ⟨.dup,operand⟩ next) :
    Held smooth own first setting mine built ⟨bound,.value type :: .value type :: kinds⟩ next := by
  have laid := held.laid
  cases moves with
  | dup operand top =>
    rw [top] at laid ⊢
    cases laid with
    | value inside rest => exact held.restack (.value inside (.value inside rest))

theorem copyingBuilt
    (held : Held smooth own first setting mine built ⟨bound,.building element :: kinds⟩ m)
    (moves : Moves setting m ⟨.dup,operand⟩ next) :
    Held smooth own first setting mine built
      ⟨bound,.target element :: .building element :: kinds⟩ next := by
  have laid := held.laid
  cases moves with
  | dup operand top =>
    rw [top] at laid ⊢
    cases laid with
    | building other rest => exact held.restack (.target (.building other rest))

theorem loadingLocal {slot : Nat} (held : Held smooth own first setting mine built ⟨bound,kinds⟩ m)
    (moves : Moves setting m (.loadLocal slot) next) :
    Held smooth own first setting mine built ⟨bound,.value type :: kinds⟩ next := by
  cases moves with
  | loadLocal slot found =>
    refine held.restack (.value ?_ held.laid)
    intro id refers
    exact held.owned.names (.inl ⟨_,List.mem_of_getElem? found,refers⟩)

theorem storingLocal {slot more : Nat}
    (held : Held smooth own first setting mine built ⟨bound,.value type :: kinds⟩ m)
    (moves : Moves setting m (.storeLocal slot) next) :
    Held smooth own first setting mine built ⟨more,kinds⟩ next := by
  have laid := held.laid
  cases moves with
  | storeLocal slot top known fits =>
    rw [top] at laid
    cases laid with
    | value inside rest => exact held.storeLocal inside rest

theorem gettingStored
    (held : Held smooth own first setting mine built ⟨bound,.value type :: .store :: kinds⟩ m)
    (moves : Moves setting m (.call .storeGet) next) :
    Held smooth own first setting mine built ⟨bound,.value .object :: kinds⟩ next := by
  have laid := held.laid
  cases moves with
  | storeGet top =>
    rw [top] at laid
    cases laid with
    | value inside rest =>
      cases rest with
      | store rest => exact held.restack (.value (storedValue held.owned rfl _) rest)

theorem settingStored {key : StaticType}
    (held : Held smooth own first setting mine built
      ⟨bound,.value type :: .value key :: .store :: kinds⟩ m)
    (moves : Moves setting m (.call .storeSet) next) :
    Held smooth own first setting mine built ⟨bound,.value type :: kinds⟩ next := by
  have laid := held.laid
  cases moves with
  | storeSet top object =>
    rw [top] at laid
    cases laid with
    | value inside rest =>
      cases rest with
      | value keyInside rest =>
        cases rest with
        | store rest =>
          refine ⟨held.owned.rename rfl ?_,.value inside rest⟩
          intro id names
          exact (Machine.namesWithStore names).elim held.owned.names (inside id)

theorem reading (careful : setting.host.Careful own) {index : Nat}
    (held : Held smooth own first setting mine built ⟨bound,kinds⟩ m)
    (moves : Moves setting m (.callGetter index) next) :
    ∃ more, Held smooth own first setting more built ⟨bound,.value .object :: kinds⟩ next ∧
      m.context.heap.size ≤ next.context.heap.size := by
  cases moves with
  | readNothing index known unread =>
    exact ⟨mine,held.restack (.value (noRef rfl) held.laid),Nat.le_refl _⟩
  | @read index p reading known answered =>
    obtain ⟨more,wider,inside,joined⟩ := held.owned.read careful answered (reading.value :: m.stack)
    have grown := (Property.readCareful careful (held.owned.whole (noRef rfl)) answered).kept.sizes
    exact ⟨more,⟨joined,.value inside (held.laid.widen wider)⟩,grown⟩

theorem writing (careful : setting.host.Careful own) {index : Nat}
    (held : Held smooth own first setting mine built ⟨bound,.value type :: kinds⟩ m)
    (moves : Moves setting m (.callSetter index) next) :
    ∃ more, Held smooth own first setting more built ⟨bound,kinds⟩ next ∧
      m.context.heap.size ≤ next.context.heap.size := by
  have laid := held.laid
  cases moves with
  | @wrote index p v below after known top written =>
    rw [top] at laid
    cases laid with
    | value inside rest =>
      obtain ⟨more,wider,joined⟩ := held.owned.written careful p inside below
      have kept := (Property.writeCareful careful p (held.owned.whole inside)).kept
      rw [written] at joined kept
      exact ⟨more,⟨joined,rest.widen wider⟩,kept.sizes⟩

theorem makingArray
    (held : Held smooth own first setting mine built ⟨bound,.value type :: kinds⟩ m)
    (moves : Moves setting m (.newArray element) next) :
    ∃ left, Held smooth own first setting mine left ⟨bound,.building element :: kinds⟩ next ∧
      Builds built left (.newArray element) m next := by
  have laid := held.laid
  cases moves with
  | @newArray element n below top natural =>
    rw [top] at laid
    cases laid with
    | value inside rest =>
      have made := held.owned.allocate element n.toInt.toNat
      have other : m.context.heap.size ∉ built :=
        fun member => Nat.lt_irrefl _ (held.owned.apart member).2.1
      refine ⟨_,⟨made.rename rfl made.names,.building other rest⟩,
        (Heap.withinAlloc _ _).sizes,?_⟩
      intro id member
      rcases List.mem_cons.mp member with rfl | later
      · exact .inr ⟨rfl,rfl,element,rfl⟩
      · exact .inl later

theorem storingElement {index : StaticType}
    (held : Held smooth own first setting mine built
      ⟨bound,.value type :: .value index :: .target element :: .building element :: kinds⟩ m)
    (moves : Moves setting m ⟨.storeElement,operand⟩ next) :
    Held smooth own first setting mine built ⟨bound,.building element :: kinds⟩ next ∧
      m.context.heap.size ≤ next.context.heap.size := by
  obtain ⟨owned,laid⟩ := held
  cases moves with
  | @storeElement operand v below id cell n top known fits =>
    rw [top] at laid
    cases laid with
    | value inside rest =>
      cases rest with
      | value indexInside rest =>
        cases rest with
        | target rest =>
          have stored := owned.fill List.mem_cons_self n.toInt.toNat inside
          exact ⟨⟨stored.rename rfl stored.names,rest⟩,
            Nat.le_of_eq (m.context.heap.sizeSetItem _ _ _).symm⟩

end Opcodes

theorem stepping (careful : setting.host.Careful own) {offset : Nat} {i : Instruction}
    (does : Does setting.method i a b) (held : Held smooth own first setting mine built a m)
    (stepped : (step setting offset i).run m = .ok () next) :
    ∃ more left, Held smooth own first setting more left b next ∧ Builds built left i m next := by
  have moves := stepMoves stepped
  have laid := held.laid
  cases does with
  | pushConst c =>
    cases moves
    exact (held.restack (.value (noRef (constantRef c)) laid)).kept (Nat.le_refl _)
  | pushNull =>
    cases moves
    exact (held.restack (.value (noRef rfl) laid)).kept (Nat.le_refl _)
  | pop =>
    cases moves with
    | pop operand top =>
      rw [top] at laid
      cases laid with
      | value inside rest => exact (held.restack rest).kept (Nat.le_refl _)
  | dup => exact (held.copying moves).kept (moves.keepsHeap rfl)
  | dupBuilding => exact (held.copyingBuilt moves).kept (moves.keepsHeap rfl)
  | box valueType =>
    cases moves with
    | box operand top raw =>
      rw [top] at laid
      cases laid with
      | value inside rest =>
        refine kept (held.restack (.value ?_ rest)) (Nat.le_refl _)
        exact noRef (Value.rawRef raw)
  | loadLocal ready slotted => exact (held.loadingLocal moves).kept (moves.keepsHeap rfl)
  | storeLocal ready slotted => exact (held.storingLocal moves).kept (moves.keepsHeap rfl)
  | declareLocal slotted => exact (held.storingLocal moves).kept (moves.keepsHeap rfl)
  | loadArgument index =>
    cases moves
    refine kept (held.restack (.value ?_ laid)) (Nat.le_refl _)
    rintro id ⟨⟩
    exact held.owned.arguments
  | loadStore =>
    cases moves
    exact (held.restack (.store laid)).kept (Nat.le_refl _)
  | force target reference =>
    cases moves with
    | force target top object =>
      rw [top] at laid
      cases laid with
      | value inside rest =>
        exact (held.restack (.value (noRef (convertRef _ target)) rest)).kept (Nat.le_refl _)
  | storeGet => exact (held.gettingStored moves).kept (moves.keepsHeap rfl)
  | storeSet => exact (held.settingStored moves).kept (moves.keepsHeap rfl)
  | callGetter index =>
    obtain ⟨more,read,grown⟩ := held.reading careful moves
    exact read.kept grown
  | callSetter index =>
    obtain ⟨more,wrote,grown⟩ := held.writing careful moves
    exact wrote.kept grown
  | newArray element => exact ⟨mine,held.makingArray moves⟩
  | storeElement =>
    obtain ⟨stored,grown⟩ := held.storingElement moves
    exact stored.kept grown

theorem failing (careful : setting.host.Careful own) {i : Instruction}
    (does : Does setting.method i a b) (held : Held smooth own first setting mine built a m)
    (fails : Fails setting i m next) :
    ∃ more, Owned smooth own first setting.arguments more built next := by
  have owned := held.owned
  cases fails with
  | refused stack => exact ⟨mine,owned.rename rfl owned.names⟩
  | read answered =>
    obtain ⟨more,_,_,joined⟩ := owned.read careful answered m.stack
    exact ⟨more,joined⟩
  | @wrote p v rest e after op top failed =>
    have inside : ∀ id, v.ref? = some id → mine id := by
      have laid := held.laid
      rw [top] at laid
      cases does with
      | callSetter index =>
        cases laid with
        | value inside rest => exact inside
      | pushConst | pushNull | pop | dup | dupBuilding | box | loadLocal | storeLocal | declareLocal
        | loadArgument | loadStore | force | storeGet | storeSet | callGetter | newArray
        | storeElement => cases op
    obtain ⟨more,_,joined⟩ := owned.written careful p inside rest
    rw [failed] at joined
    exact ⟨more,joined⟩

end Held
end ScriptMachine
