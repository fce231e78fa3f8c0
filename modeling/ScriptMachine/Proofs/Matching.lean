import ScriptMachine.Proofs.Evaluation
import ScriptMachine.Proofs.Lowering
import ScriptMachine.Proofs.TypedMemory
/-! When a machine stands where an evaluation stands. The draft of the method at
that place says which variables are bound; a bound variable's value is in its
slot, and every later slot of the finished method holds its zero value still. -/
namespace ScriptMachine

inductive Tables (strict : Prop) : List Local → List Variable → List Value → Prop where
  | nil : Tables strict [] [] []
  | cons {entry v locals table values} (typed : v.Typed strict entry.type)
      (rest : Tables strict locals table values) :
      Tables strict (entry :: locals) (⟨entry.name,entry.type,v⟩ :: table) (v :: values)

namespace Tables
variable {strict : Prop} {locals : List Local} {table : List Variable} {values : List Value}
variable {slot : Nat} {name : String} {b : Binding} {v : Value}

theorem lengths (tables : Tables strict locals table values) : values.length = locals.length := by
  induction tables with
  | nil => rfl
  | cons typed rest ih => simp [ih]

theorem columns (tables : Tables strict locals table values) :
    table.map (·.name) = locals.map (·.name) ∧ table.map (·.type) = locals.map (·.type) ∧
      table.map (·.value) = values := by
  induction tables with
  | nil => exact ⟨rfl,rfl,rfl⟩
  | cons typed rest ih => simp [ih.1,ih.2.1,ih.2.2]

theorem held (tables : Tables strict locals table values) {entry : Local}
    (declared : locals[slot]? = some entry) :
    ∃ w, values[slot]? = some w ∧ w.Typed strict entry.type := by
  induction tables generalizing slot with
  | nil => cases declared
  | @cons first w locals table values typed rest ih =>
    cases slot with
    | zero =>
      cases declared
      exact ⟨w,rfl,typed⟩
    | succ slot => exact ih declared

theorem find (tables : Tables strict locals table values)
    (found : findLocalFrom slot locals name = some b) :
    ∃ w, findVariable? table name = some ⟨b.entry.name,b.entry.type,w⟩ ∧
      values[b.slot - slot]? = some w ∧ w.Typed strict b.entry.type := by
  induction tables generalizing slot with
  | nil => cases found
  | @cons entry w locals table values typed rest ih =>
    unfold findLocalFrom at found
    unfold findVariable? at ih ⊢
    split at found
    · rename_i same
      cases found
      exact ⟨w,by simp [same],by simp,typed⟩
    · rename_i different
      obtain ⟨w,there,held,typed⟩ := ih found
      have low := (findLocalFromSound found).1
      have next : b.slot - slot = b.slot - (slot + 1) + 1 := by omega
      exact ⟨w,by simp [different,there],by rw [next]; exact held,typed⟩

theorem absent (tables : Tables strict locals table values)
    (free : findLocalFrom slot locals name = none) : findVariable? table name = none := by
  induction tables generalizing slot with
  | nil => rfl
  | cons typed rest ih =>
    unfold findLocalFrom at free
    split at free
    · cases free
    · rename_i different
      simp only [findVariable?] at ih ⊢
      simp [different,ih free]

theorem set (tables : Tables strict locals table values)
    (found : findLocalFrom slot locals name = some b) (typed : v.Typed strict b.entry.type) :
    Tables strict locals (setVariable name v table) (values.set (b.slot - slot) v) := by
  induction tables generalizing slot with
  | nil => cases found
  | @cons entry w locals table values old rest ih =>
    unfold findLocalFrom at found
    unfold setVariable
    split at found
    · rename_i same
      cases found
      rw [if_pos same,Nat.sub_self]
      exact .cons typed rest
    · rename_i different
      have low := (findLocalFromSound found).1
      have next : b.slot - slot = b.slot - (slot + 1) + 1 := by omega
      rw [if_neg different,next]
      exact .cons old (ih found)

theorem append (tables : Tables strict locals table values) {entry : Local}
    (typed : v.Typed strict entry.type) :
    Tables strict (locals ++ [entry]) (table ++ [⟨entry.name,entry.type,v⟩]) (values ++ [v]) := by
  induction tables with
  | nil => exact .cons typed .nil
  | cons old rest ih => exact .cons old ih

end Tables

structure Draft.PartOf (d : Draft) (method : CompiledMethod) : Prop where
  locals : d.scope.locals <+: method.locals
  accessors : d.accessors <+: method.accessors

theorem Draft.Grows.partOf {old new : Draft} {method : CompiledMethod} (grown : old.Grows new)
    (part : new.PartOf method) : old.PartOf method :=
  ⟨grown.locals.trans part.locals,grown.accessors.trans part.accessors⟩

theorem Draft.PartOf.slot {d : Draft} {method : CompiledMethod} (part : d.PartOf method)
    {name : String} {b : Binding} (found : d.scope.find? name = some b) :
    method.locals[b.slot]? = some b.entry :=
  prefixAt part.locals (findLocalSound found).1

def Draft.Solid (d : Draft) : Prop :=
  ∀ entry ∈ d.scope.locals, entry.type ≠ .void

namespace Draft.Solid
variable {d : Draft}

theorem found (solid : d.Solid) {name : String} {b : Binding}
    (known : d.scope.find? name = some b) : b.entry.type ≠ .void :=
  solid b.entry (List.mem_of_getElem? (findLocalSound known).1)

theorem bind (solid : d.Solid) {name : String} {type : StaticType} {span : Span}
    (typed : type ≠ .void) :
    Solid { d with scope := (d.scope.bind name type span).2 } := by
  intro entry member
  rcases List.mem_append.mp member with old | new
  · exact solid entry old
  · rw [List.mem_singleton.mp new]
    exact typed

theorem bound (solid : d.Solid) {name : String} {type : StaticType} {span : Span}
    (typed : (d.scope.bindOrReuse name type span).1.entry.type ≠ .void) :
    (CompileM.bound d name type span).Solid := by
  unfold CompileM.bound
  unfold Scope.bindOrReuse at typed ⊢
  cases known : d.scope.find? name with
  | some b => exact solid
  | none =>
    rw [known] at typed
    exact solid.bind typed

end Draft.Solid

structure Sync (strict : Prop) (method : CompiledMethod) (d : Draft) (s : EvalState) (m : Machine) :
    Prop where
  tables : ∃ values, Tables strict d.scope.locals s.table values ∧
    m.locals = values ++ (method.locals.drop values.length).map (·.type.initial)
  context : m.context = s.context
  queries : s.queries = d.queries
  objects : strict → s.context.store.HoldsObjects

namespace Sync
variable {strict : Prop} {method : CompiledMethod} {d : Draft} {s : EvalState} {m : Machine}
variable {name : String} {b : Binding} {v : Value}

theorem withStack (sync : Sync strict method d s m) (stack : List Value) :
    Sync strict method d s (m.withStack stack) :=
  ⟨sync.tables,sync.context,sync.queries,sync.objects⟩

theorem asked (sync : Sync strict method d s m) :
    Sync strict method (CompileM.asked d) { s with queries := s.queries + 1 } m :=
  ⟨sync.tables,sync.context,by rw [sync.queries]; rfl,sync.objects⟩

theorem withAccessors (sync : Sync strict method d s m) (accessors : List Property) :
    Sync strict method { d with accessors := accessors } s m :=
  ⟨sync.tables,sync.context,sync.queries,sync.objects⟩

theorem withHeap (sync : Sync strict method d s m) (heap : Heap) :
    Sync strict method d { s with context := { s.context with heap := heap } } (m.withHeap heap) :=
  ⟨sync.tables,by simp only [Machine.withHeap,sync.context],sync.queries,sync.objects⟩

theorem withSurroundings (sync : Sync strict method d s m) (around : Surroundings) :
    Sync strict method d { s with context := s.context.withSurroundings around }
      (m.withSurroundings around) :=
  ⟨sync.tables,by simp only [Machine.withSurroundings,sync.context],sync.queries,sync.objects⟩

theorem withStore (sync : Sync strict method d s m) {store : Store}
    (objects : strict → store.HoldsObjects) :
    Sync strict method d { s with context := { s.context with store := store } }
      (m.withStore store) :=
  ⟨sync.tables,by simp only [Machine.withStore,sync.context],sync.queries,objects⟩

theorem read (sync : Sync strict method d s m) (found : d.scope.find? name = some b) :
    ∃ w, findVariable? s.table name = some ⟨b.entry.name,b.entry.type,w⟩ ∧
      m.locals[b.slot]? = some w ∧ w.Typed strict b.entry.type := by
  obtain ⟨values,tables,slots⟩ := sync.tables
  obtain ⟨w,there,held,typed⟩ := tables.find found
  refine ⟨w,there,?_,typed⟩
  rw [slots]
  exact prefixAt (List.prefix_append _ _) held

theorem allBound (sync : Sync strict method d s m) (whole : method.locals = d.scope.locals) :
    Tables strict method.locals s.table m.locals := by
  obtain ⟨values,tables,slots⟩ := sync.tables
  rw [tables.lengths,← whole,List.drop_length,List.map_nil,List.append_nil] at slots
  rw [slots,whole]
  exact tables

theorem absent (sync : Sync strict method d s m) (free : d.scope.find? name = none) :
    findVariable? s.table name = none := by
  obtain ⟨values,tables,slots⟩ := sync.tables
  exact tables.absent free

theorem assign (sync : Sync strict method d s m) (found : d.scope.find? name = some b)
    (typed : v.Typed strict b.entry.type) :
    Sync strict method d { s with table := setVariable name v s.table }
      (m.withLocal b.slot v) := by
  obtain ⟨values,tables,slots⟩ := sync.tables
  refine ⟨⟨values.set b.slot v,tables.set found typed,?_⟩,sync.context,sync.queries,sync.objects⟩
  obtain ⟨w,there,held,old⟩ := tables.find found
  have below : b.slot < values.length := (List.getElem?_eq_some_iff.mp held).1
  simp only [Machine.withLocal,slots,List.length_set]
  exact List.set_append_left b.slot v below

theorem bind (sync : Sync strict method d s m) {type : StaticType} {span : Span}
    (part : (d.scope.bind name type span).2.locals <+: method.locals)
    (typed : v.Typed strict type) :
    Sync strict method { d with scope := (d.scope.bind name type span).2 }
        { s with table := s.table ++ [⟨name,type,v⟩] } (m.withLocal d.scope.size v) ∧
      m.locals[d.scope.size]? = some type.initial := by
  obtain ⟨values,tables,slots⟩ := sync.tables
  obtain ⟨more,whole⟩ := part
  have size : d.scope.size = values.length := tables.lengths.symm
  have left : method.locals.drop values.length = ⟨name,type,span⟩ :: more := by
    rw [← whole,← size]
    simp [Scope.bind,Scope.size]
  rw [left] at slots
  refine ⟨⟨⟨values ++ [v],tables.append typed,?_⟩,sync.context,sync.queries,sync.objects⟩,?_⟩
  · have further : method.locals.drop (values.length + 1) = more := by
      rw [← List.drop_drop,left]
      rfl
    simp [Machine.withLocal,slots,size,further]
  · simp [slots,size]

theorem bindInitial (sync : Sync strict method d s m) {type : StaticType} {span : Span}
    (part : (d.scope.bind name type span).2.locals <+: method.locals)
    (typed : type.initial.Typed strict type) :
    Sync strict method { d with scope := (d.scope.bind name type span).2 }
      { s with table := s.table ++ [⟨name,type,type.initial⟩] } m := by
  -- the slot still holds the zero value of its type, so that binding takes no instruction
  obtain ⟨bound,initial⟩ := sync.bind part typed
  obtain ⟨below,there⟩ := List.getElem?_eq_some_iff.mp initial
  have same : m.withLocal d.scope.size type.initial = m := by
    rw [← there]
    simp [Machine.withLocal]
  rw [same] at bound
  exact bound

end Sync

theorem Store.getTyped {strict : Prop} {store : Store} (objects : strict → store.HoldsObjects)
    (key : String) : (store.get key).Typed strict .object := by
  refine ⟨fun other => absurd rfl other,?_⟩
  intro holds
  refine .ofObject ?_
  unfold get
  cases found : store.get? key with
  | none => rfl
  | some v => exact objects holds _ v found

theorem Store.setObjects {store : Store} (objects : store.HoldsObjects) (key : String) {v : Value}
    (object : v.isRaw = false) : (store.set key v).HoldsObjects := by
  intro other w found
  rcases setEntries found with old | ⟨_,rfl⟩
  · exact objects other w old
  · exact object

end ScriptMachine
