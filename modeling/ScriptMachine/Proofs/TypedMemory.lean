import ScriptMachine.Proofs.RunPoint
/-! Memory stays typed whatever code runs, also code that no compiler makes. The
machine checks a value where it is stored, in a local, in an array or under a
key, and that alone keeps locals, arrays and store typed at every point of every
run. What a run gets from outside may be badly typed already: the arrays of the
caller and those that a property accessor makes. -/
namespace ScriptMachine

def ArrayCell.Filled (cell : ArrayCell) : Prop :=
  ∀ v ∈ cell.items, v.fits cell.element = true

def Store.HoldsObjects (store : Store) : Prop :=
  ∀ (key : String) (v : Value), store.entries[key]? = some v → v.isRaw = false

theorem Store.emptyObjects : ({} : Store).HoldsObjects := by
  intro key v found
  simp at found

def Text.Lowercase (s : String) : Prop :=
  ∀ c ∈ s.toList, c.isUpper = false

theorem Text.lowerNotUpper (c : Char) : c.toLower.isUpper = false := by
  unfold Char.toLower
  split
  · rename_i upper
    refine decide_eq_false ?_
    simp only [ge_iff_le,UInt32.le_iff_toNat_le] at upper ⊢
    have low := upper.1
    have high := upper.2
    simp [UInt32.toNat_add] at low high ⊢
    omega
  · rename_i other
    exact decide_eq_false other

theorem Text.foldLowercase (s : String) : Lowercase (fold s) := by
  intro c member
  simp only [fold,String.toList_ofList,List.mem_map] at member
  obtain ⟨original,_,rfl⟩ := member
  exact lowerNotUpper original

def Store.GrowsTo (old new : Store) : Prop :=
  ∀ (key : String) (v : Value), new.entries[key]? = some v →
    old.entries[key]? = some v ∨ (Text.Lowercase key ∧ v.isRaw = false)

theorem Store.setEntries {store : Store} {name key : String} {v w : Value}
    (found : (store.set name v).entries[key]? = some w) :
    store.entries[key]? = some w ∨ (key = Text.fold name ∧ w = v) := by
  simp only [set,Std.ExtTreeMap.getElem?_insert] at found
  split at found
  · rename_i same
    exact .inr ⟨by simpa using (Std.LawfulEqCmp.eq_of_compare same).symm,
      (Option.some.inj found).symm⟩
  · exact .inl found

namespace Heap

def StaysTyped (old new : Heap) : Prop :=
  ∀ id cell, old.cell? id = some cell →
    ∃ later, new.cell? id = some later ∧ later.element = cell.element ∧
      later.items.size = cell.items.size ∧ (cell.Filled → later.Filled)

theorem Within.staysTyped {old new : Heap} (kept : old.Within new) : old.StaysTyped new :=
  fun id cell known => ⟨cell,kept id cell known,rfl,rfl,fun filled => filled⟩

theorem staysTypedRefl (heap : Heap) : heap.StaysTyped heap :=
  (withinRefl heap).staysTyped

theorem StaysTyped.trans {first second third : Heap} (left : first.StaysTyped second)
    (right : second.StaysTyped third) : first.StaysTyped third := by
  intro id cell known
  obtain ⟨next,found,element,size,filled⟩ := left id cell known
  obtain ⟨last,there,sameElement,sameSize,stillFilled⟩ := right id next found
  exact ⟨last,there,sameElement.trans element,sameSize.trans size,
    fun start => stillFilled (filled start)⟩

theorem filledSetItem {cell : ArrayCell} {v : Value} (fits : v.fits cell.element = true)
    (index : Nat) (filled : cell.Filled) :
    ArrayCell.Filled { cell with items := cell.items.setIfInBounds index v } := by
  intro w member
  rcases Array.mem_or_eq_of_mem_setIfInBounds member with old | rfl
  · exact filled w old
  · exact fits

theorem staysTypedSetItem {heap : Heap} {id : ArrayId} {cell : ArrayCell} {v : Value}
    (known : heap.cell? id = some cell) (fits : v.fits cell.element = true) (index : Nat) :
    heap.StaysTyped (heap.setItem id index v) := by
  intro other old found
  rw [cellSetItem]
  split
  · rename_i same
    subst same
    rw [known] at found
    cases found
    rw [known]
    exact ⟨_,rfl,rfl,Array.size_setIfInBounds,filledSetItem fits index⟩
  · exact ⟨old,found,rfl,rfl,fun filled => filled⟩

end Heap

theorem replicateFilled {element : StaticType} (solid : element ≠ .void) (count : Nat) :
    ArrayCell.Filled ⟨element,Array.replicate count element.initial⟩ := by
  intro v member
  rw [(Array.mem_replicate.mp member).2]
  exact StaticType.initialFits solid

theorem argumentsFilled (arguments : List Value) :
    ArrayCell.Filled ⟨.object,(arguments.map Value.asObject).toArray⟩ := by
  intro v member
  obtain ⟨argument,_,rfl⟩ := List.mem_map.mp (List.mem_toArray.mp member)
  exact argument.asObjectFits

def LocalsFit (declared : List Local) (locals : List Value) : Prop :=
  locals.length = declared.length ∧
  ∀ (slot : Nat) (entry : Local), declared[slot]? = some entry → entry.type ≠ .void →
    ∃ v : Value, locals[slot]? = some v ∧ v.fits entry.type = true

theorem initialLocalsFit (method : CompiledMethod) :
    LocalsFit method.locals method.initialLocals := by
  refine ⟨List.length_map _,?_⟩
  intro slot entry declared solid
  refine ⟨entry.type.initial,?_,StaticType.initialFits solid⟩
  rw [CompiledMethod.initialLocals,List.getElem?_map,declared]
  rfl

theorem localsFitSet {declared : List Local} {locals : List Value} (fit : LocalsFit declared locals)
    {slot : Nat} {entry : Local} {v : Value} (slotted : declared[slot]? = some entry)
    (fits : v.fits entry.type = true) : LocalsFit declared (locals.set slot v) := by
  refine ⟨by rw [List.length_set]; exact fit.1,?_⟩
  intro other there found solid
  rw [List.getElem?_set]
  split
  · rename_i same
    subst same
    rw [slotted] at found
    cases found
    have below := (List.getElem?_eq_some_iff.mp slotted).1
    rw [if_pos (by rw [fit.1]; exact below)]
    exact ⟨v,rfl,fits⟩
  · exact fit.2 other there found solid

namespace Effect
variable {setting : Setting} {offset : Nat} {i : Instruction} {m : Machine} {outcome : StepResult}

theorem localsFit (effect : Effect setting offset i m outcome)
    (fit : LocalsFit setting.method.locals m.locals) :
    LocalsFit setting.method.locals (lastState outcome).locals := by
  cases effect with
  | storedLocal slot v stack slotted fits room => exact localsFitSet fit slotted fits
  | moved | refused | storedKey | storedItem | allocated | read | readRefused | wrote
  | writeRefused => exact fit

theorem storeGrows (effect : Effect setting offset i m outcome) :
    m.context.store.GrowsTo (lastState outcome).context.store := by
  intro key v found
  cases effect with
  | storedKey name w stack object room =>
    rcases Store.setEntries found with old | ⟨rfl,rfl⟩
    · exact .inl old
    · exact .inr ⟨Text.foldLowercase name,object⟩
  | moved | refused | storedLocal | storedItem | allocated | read | readRefused | wrote
  | writeRefused => exact .inl found

theorem heapStaysTyped (effect : Effect setting offset i m outcome)
    (calm : setting.host.Keeps Heap.Within) :
    m.context.heap.StaysTyped (lastState outcome).context.heap := by
  cases effect with
  | storedItem id index v stack known fits room => exact Heap.staysTypedSetItem known fits index
  | allocated element count stack room => exact (Heap.withinAlloc _ _).staysTyped
  | read p reading op answered room =>
    exact (Property.readKeeps Heap.withinRefl calm.getters answered).staysTyped
  | readRefused p reading op answered =>
    exact (Property.readKeeps Heap.withinRefl calm.getters answered).staysTyped
  | wrote p v after stack op written room =>
    have kept := Property.writeKeeps Heap.withinRefl calm.setters p v m.surroundings
    rw [written] at kept
    exact kept.staysTyped
  | writeRefused p v e after stack op failed room =>
    have kept := Property.writeKeeps Heap.withinRefl calm.setters p v m.surroundings
    rw [failed] at kept
    exact kept.staysTyped
  | moved | refused | storedLocal | storedKey => exact Heap.staysTypedRefl _

theorem newArrayFilled (effect : Effect setting offset i m outcome) {id : ArrayId}
    {cell : ArrayCell} (absent : m.context.heap.cell? id = none)
    (present : (lastState outcome).context.heap.cell? id = some cell) :
    (i.op = .callGetter ∨ i.op = .callSetter) ∨ (cell.element ≠ .void → cell.Filled) := by
  cases effect with
  | read p reading op answered room => exact .inl (.inl op)
  | readRefused p reading op answered => exact .inl (.inl op)
  | wrote p v after stack op written room => exact .inl (.inr op)
  | writeRefused p v e after stack op failed room => exact .inl (.inr op)
  | allocated element count stack room =>
    right
    intro solid
    have found : (m.context.heap.alloc ⟨element,Array.replicate count element.initial⟩).2.cell? id =
        some cell := present
    rw [Heap.cellAlloc] at found
    split at found
    · cases found
      exact replicateFilled solid count
    · rw [absent] at found
      cases found
  | storedItem id' index v stack known fits room =>
    have found : (m.context.heap.setItem id' index v).cell? id = some cell := present
    rw [Heap.cellSetItem,absent] at found
    split at found <;> cases found
  | moved | refused | storedLocal | storedKey =>
    have found : m.context.heap.cell? id = some cell := present
    rw [absent] at found
    cases found

end Effect

namespace CompiledMethod

section Invariants
variable (method : CompiledMethod) (host : Host) (limit : Nat) (arguments : List Value)
variable (context : Context)

theorem pointLocals (n : Nat) :
    LocalsFit method.locals (method.point host limit arguments context n).locals := by
  refine pointInvariant (fun m => LocalsFit method.locals m.locals) (initialLocalsFit method) ?_ n
  intro k i outcome effect fit
  exact effect.localsFit fit

theorem pointStore (n : Nat) :
    context.store.GrowsTo (method.point host limit arguments context n).context.store := by
  refine pointInvariant (fun m => context.store.GrowsTo m.context.store) ?_ ?_ n
  · intro key v found
    exact .inl found
  · intro k i outcome effect known key v found
    rcases effect.storeGrows key v found with old | new
    · exact known key v old
    · exact .inr new

theorem pointArrays (calm : host.Keeps Heap.Within) {earlier later : Nat}
    (order : earlier ≤ later) :
    (method.point host limit arguments context earlier).context.heap.StaysTyped
      (method.point host limit arguments context later).context.heap := by
  induction order with
  | refl => exact Heap.staysTypedRefl _
  | @step n before ih =>
    rcases method.pointStep host limit arguments context n with same | ⟨i,outcome,found,effect,next⟩
    · rw [same]
      exact ih
    · rw [next]
      exact ih.trans (effect.heapStaysTyped calm)

variable {context}

theorem pointObjects (objects : context.store.HoldsObjects) (n : Nat) :
    (method.point host limit arguments context n).context.store.HoldsObjects := by
  intro key v found
  rcases method.pointStore host limit arguments context n key v found with old | new
  · exact objects key v old
  · exact new.2

end Invariants

/-- The arrays that a run gets from outside, with what they hold then: those of
its caller and those that a property accessor makes. -/
inductive Enters (method : CompiledMethod) (host : Host) (limit : Nat) (arguments : List Value)
    (context : Context) (id : ArrayId) (cell : ArrayCell) : Prop where
  | given (known : context.heap.cell? id = some cell)
  | made (n : Nat) (i : Instruction) (found : method.listing.instructions[n]? = some i)
      (accessor : i.op = .callGetter ∨ i.op = .callSetter)
      (absent : (method.point host limit arguments context n).context.heap.cell? id = none)
      (present :
        (method.point host limit arguments context (n + 1)).context.heap.cell? id = some cell)

theorem pointElements {host : Host} (calm : host.Keeps Heap.Within) {limit : Nat}
    {method : CompiledMethod} {arguments : List Value} {context : Context} {id : ArrayId}
    (entered : ∀ cell, method.Enters host limit arguments context id cell → cell.Filled) (n : Nat) :
    ∀ cell, (method.point host limit arguments context n).context.heap.cell? id = some cell →
      cell.element ≠ .void → cell.Filled := by
  induction n with
  | zero =>
    intro cell present solid
    have found : (context.heap.alloc ⟨.object,(arguments.map Value.asObject).toArray⟩).2.cell? id =
        some cell := present
    rw [Heap.cellAlloc] at found
    split at found
    · cases found
      exact argumentsFilled arguments
    · exact entered cell (.given found)
  | succ n ih =>
    intro cell present solid
    cases known : (method.point host limit arguments context n).context.heap.cell? id with
    | some old =>
      have heap := method.pointArrays host limit arguments context calm (Nat.le_succ n)
      obtain ⟨later,there,element,size,filled⟩ := heap id old known
      rw [present] at there
      cases there
      exact filled (ih old known (element ▸ solid))
    | none =>
      -- an array that the step made: its elements are the step's own or came with it
      rcases method.pointStep host limit arguments context n with
        same | ⟨i,outcome,found,effect,next⟩
      · rw [same,known] at present
        cases present
      · have new := present
        rw [next] at new
        rcases effect.newArrayFilled known new with accessor | filled
        · exact entered cell (.made n i found accessor known present)
        · exact filled solid

structure TypedAt (method : CompiledMethod) (host : Host) (limit : Nat) (arguments : List Value)
    (context : Context) (n : Nat) : Prop where
  locals : LocalsFit method.locals (method.point host limit arguments context n).locals
  arrays : ∀ earlier ≤ n,
    (method.point host limit arguments context earlier).context.heap.StaysTyped
      (method.point host limit arguments context n).context.heap
  elements : ∀ id cell,
    (method.point host limit arguments context n).context.heap.cell? id = some cell →
    cell.element ≠ .void →
    (∀ entered, method.Enters host limit arguments context id entered → entered.Filled) →
    cell.Filled
  objects : context.store.HoldsObjects →
    (method.point host limit arguments context n).context.store.HoldsObjects
  keys : ∀ (key : String) (v : Value),
    (method.point host limit arguments context n).context.store.entries[key]? = some v →
    context.store.entries[key]? = some v ∨ Text.Lowercase key
  depth : (method.point host limit arguments context n).stack.length ≤ limit

theorem memoryStaysTyped {host : Host} (calm : host.Keeps Heap.Within) (limit : Nat)
    (method : CompiledMethod) (arguments : List Value) (context : Context) (n : Nat) :
    method.TypedAt host limit arguments context n where
  locals := method.pointLocals host limit arguments context n
  arrays := fun _ before => method.pointArrays host limit arguments context calm before
  elements := fun _ cell present solid entered => pointElements calm entered n cell present solid
  objects := fun objects => method.pointObjects host limit arguments objects n
  keys := fun key v found =>
    (method.pointStore host limit arguments context n key v found).imp_right And.left
  depth := method.pointRoom host limit arguments context n

def selfHoldingArray : CompiledMethod :=
  ⟨"main",(Emitter.emitAll {} [.pushInt 1,.newArray .object,.storeLocal 0,.loadLocal 0,.pushInt 0,
    .loadLocal 0,.storeElement,.loadLocal 0,.pushInt 0,.pushInt 5,.storeElement]).listing,
    [⟨"a",.array .object,.start⟩],[]⟩

def quietHost : Host :=
  ⟨fun _ => false,0,fun _ _ heap => ⟨.null,heap⟩,fun _ _ _ => pure ()⟩

theorem quietHostKeeps {kept : Heap → Heap → Prop} (same : ∀ heap, kept heap heap) :
    quietHost.Keeps kept :=
  ⟨fun _ _ heap => same heap,fun _ _ _ s => same s.heap⟩

theorem selfHoldingArrayTyped :
    quietHost.Keeps Heap.Within ∧
      (selfHoldingArray.point quietHost 3 [] {} 10).context.heap.cells =
        #[⟨.object,#[]⟩,⟨.object,#[.array 1]⟩] ∧
      selfHoldingArray.TypedAt quietHost 3 [] {} 11 := by
  have calm : quietHost.Keeps Heap.Within := quietHostKeeps Heap.withinRefl
  exact ⟨calm,by decide +kernel,memoryStaysTyped calm 3 selfHoldingArray [] {} 11⟩

end CompiledMethod
end ScriptMachine
