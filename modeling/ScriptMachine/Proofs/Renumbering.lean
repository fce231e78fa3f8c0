import ScriptMachine.Proofs.ArrayOwnership
import ScriptMachine.Proofs.Refinement
import ScriptMachine.Proofs.UniformAccess
/-! One tree evaluated twice, from states that are equal but for the numbers of
arrays, the numbers of the questions to the lookup, and variables in front that
the tree does not mention. An evaluation that succeeds in the one state succeeds
in the other, and the states stay like that. -/
namespace ScriptMachine

namespace Expr

mutual
def names : Expr → List String
  | constant _ _ => []
  | null _ => []
  | localRef name _ => [name]
  | argument _ _ => []
  | indexed _ key _ => names key
  | property _ _ => []
  | arrayOf _ items _ => namesAll items
  | assign target value _ => names target ++ names value

def namesAll : List Expr → List String
  | [] => []
  | item :: items => names item ++ namesAll items
end

end Expr

def Stmt.names : Stmt → List String
  | declare name init _ => name :: init.names
  | assign target value _ => target.names ++ value.names
  | evaluate e _ => e.names

def bodyNames (body : List Stmt) : List String :=
  body.flatMap Stmt.names

structure Lookup.Consistent (lookup : Lookup) (host : Host) : Prop where
  getters : ∀ name query later, (lookup.resolveGetter query name).map (·.read host) =
    (lookup.resolveGetter later name).map (·.read host)
  setters : ∀ name query later, (lookup.resolveSetter query name).map (·.write host) =
    (lookup.resolveSetter later name).map (·.write host)

inductive Copies (r : Links) : List Variable → List Variable → Prop where
  | nil : Copies r [] []
  | cons {name type v w table copy} (value : v.Linked r w) (rest : Copies r table copy) :
      Copies r (⟨name,type,v⟩ :: table) (⟨name,type,w⟩ :: copy)

namespace Copies
variable {r q : Links} {table copy : List Variable} {name : String} {v w : Value}

theorem mono (more : ∀ {a b}, r a b → q a b) (copies : Copies r table copy) :
    Copies q table copy := by
  induction copies with
  | nil => exact .nil
  | cons value rest ih => exact .cons (value.mono more) ih

theorem find (copies : Copies r table copy) (name : String) :
    (findVariable? table name = none ∧ findVariable? copy name = none) ∨
      ∃ type v w, findVariable? table name = some ⟨name,type,v⟩ ∧
        findVariable? copy name = some ⟨name,type,w⟩ ∧ v.Linked r w := by
  induction copies with
  | nil => exact .inl ⟨rfl,rfl⟩
  | @cons first type v w table copy value rest ih =>
    by_cases same : first = name
    · subst same
      exact .inr ⟨type,v,w,by simp [findVariable?],by simp [findVariable?],value⟩
    · simpa [findVariable?,same] using ih

theorem set (copies : Copies r table copy) (values : v.Linked r w) (name : String) :
    Copies r (setVariable name v table) (setVariable name w copy) := by
  induction copies with
  | nil => exact .nil
  | @cons first type v w table copy value rest ih =>
    simp only [setVariable]
    split
    · exact .cons values rest
    · exact .cons value ih

theorem append (copies : Copies r table copy) (name : String) (type : StaticType)
    (values : v.Linked r w) :
    Copies r (table ++ [⟨name,type,v⟩]) (copy ++ [⟨name,type,w⟩]) := by
  induction copies with
  | nil => exact .cons values .nil
  | cons value rest ih => exact .cons value ih

end Copies

theorem findBehind {front table : List Variable} {name : String}
    (other : name ∉ front.map (·.name)) :
    findVariable? (front ++ table) name = findVariable? table name := by
  have absent : front.find? (·.name = name) = none := by
    simpa [List.find?_eq_none] using other
  simp only [findVariable?,List.find?_append,absent,Option.none_or]

theorem setBehind {front table : List Variable} {name : String} (v : Value)
    (other : name ∉ front.map (·.name)) :
    setVariable name v (front ++ table) = front ++ setVariable name v table := by
  induction front with
  | nil => rfl
  | cons x front ih =>
    simp only [List.map_cons,List.mem_cons,not_or] at other
    simp only [List.cons_append,setVariable,if_neg (Ne.symm other.1),ih other.2]

/-- The two evaluations of a tree: what they share, the array of arguments of
each, and the variables that only the second one has. -/
structure Twins where
  host : Host
  setup : CompileSetup
  own : ArrayId → Prop
  left : ArrayId
  right : ArrayId
  front : List Variable

namespace Twins

def first (twins : Twins) : Evaluator :=
  ⟨twins.host,twins.setup,twins.left⟩

def second (twins : Twins) : Evaluator :=
  ⟨twins.host,twins.setup,twins.right⟩

structure Linked (twins : Twins) (r : Links) (s t : EvalState) : Prop where
  own : ∀ id, twins.own id → r id id
  arguments : r twins.left twins.right
  table : ∃ copy, t.table = twins.front ++ copy ∧ Copies r s.table copy
  store : s.context.store.Linked r t.context.store
  environment : s.context.environment.Linked r t.context.environment
  heap : r.Joins s.context.heap t.context.heap

structure Reached (twins : Twins) (r : Links) (s t : EvalState) (q : Links) (next later : EvalState) :
    Prop where
  grows : r.Grows q s.context.heap.size t.context.heap.size
  left : s.context.heap.Within next.context.heap
  right : t.context.heap.Within later.context.heap
  linked : twins.Linked q next later

def Carries {α β : Type} (twins : Twins) (r : Links) (s t : EvalState) (x : EvalM α) (y : EvalM β)
    (results : Links → α → β → Prop) : Prop :=
  ∀ ⦃a next⦄, x.run s = .ok a next → ∃ q b later, y.run t = .ok b later ∧
    twins.Reached r s t q next later ∧ results q a b

variable {twins : Twins} {r q : Links} {s t next later : EvalState}

theorem Linked.here (linked : twins.Linked r s t) : twins.Reached r s t r s t :=
  ⟨r.growsRefl _ _,Heap.withinRefl _,Heap.withinRefl _,linked⟩

theorem Reached.trans {p : Links} {last final : EvalState} (before : twins.Reached r s t q next later)
    (after : twins.Reached q next later p last final) : twins.Reached r s t p last final :=
  ⟨before.grows.trans after.grows before.left.sizes before.right.sizes,
    before.left.trans after.left,before.right.trans after.right,after.linked⟩

theorem Carries.bind {α β γ δ : Type} {x : EvalM α} {y : EvalM β} {f : α → EvalM γ}
    {g : β → EvalM δ} {results : Links → α → β → Prop} {last : Links → γ → δ → Prop}
    (before : twins.Carries r s t x y results)
    (after : ∀ {q a b next later}, twins.Reached r s t q next later → results q a b →
      twins.Carries q next later (f a) (g b) last) :
    twins.Carries r s t (x >>= f) (y >>= g) last := by
  intro c final ok
  obtain ⟨a,next,ran,rest⟩ := bindOk ok
  obtain ⟨q,b,later,also,reached,result⟩ := before ran
  obtain ⟨p,d,last,ended,further,result⟩ := after reached result rest
  exact ⟨p,d,last,(runBindOk also g).trans ended,reached.trans further,result⟩

theorem Carries.pure {α β : Type} {a : α} {b : β} {results : Links → α → β → Prop}
    (linked : twins.Linked r s t) (result : results r a b) :
    twins.Carries r s t (pure a) (pure b) results := by
  intro c final ok
  cases ok
  exact ⟨r,b,t,rfl,linked.here,result⟩


theorem Linked.surrounded (linked : twins.Linked r s t) (more : ∀ {a b}, r a b → q a b)
    {after final : Surroundings} (around : after.Linked q final) :
    twins.Linked q { s with context := s.context.withSurroundings after }
      { t with context := t.context.withSurroundings final } := by
  obtain ⟨copy,table,copies⟩ := linked.table
  exact ⟨fun id own => more (linked.own id own),more linked.arguments,
    ⟨copy,table,copies.mono more⟩,linked.store.mono more,around.environment,around.heap⟩

theorem Linked.around (linked : twins.Linked r s t) :
    Surroundings.Linked r ⟨s.context.environment,s.context.heap⟩
      ⟨t.context.environment,t.context.heap⟩ :=
  ⟨linked.environment,linked.heap⟩

theorem Linked.retabled (linked : twins.Linked r s t) {table copy : List Variable}
    (copies : Copies r table copy) :
    twins.Reached r s t r { s with table := table } { t with table := twins.front ++ copy } :=
  ⟨r.growsRefl _ _,Heap.withinRefl _,Heap.withinRefl _,
    { linked with table := ⟨copy,rfl,copies⟩ }⟩

end Twins

structure TypedValue.Linked (r : Links) (a b : TypedValue) : Prop where
  type : a.type = b.type
  value : a.value.Linked r b.value

namespace TypedValue.Linked
variable {r q : Links} {a b : TypedValue}

theorem mono (more : ∀ {x y}, r x y → q x y) (linked : a.Linked r b) : a.Linked q b :=
  ⟨linked.type,linked.value.mono more⟩

theorem convertTo (linked : a.Linked r b) (wanted : StaticType) :
    (a.convertTo wanted).Linked r (b.convertTo wanted) := by
  unfold TypedValue.convertTo
  rw [linked.type]
  split
  · exact linked.value
  · exact linked.value.convertTo wanted

end TypedValue.Linked

namespace Twins
open EvalM
variable {twins : Twins} {r : Links} {s t : EvalState} {name : String}

def Apart (twins : Twins) (name : String) : Prop :=
  name ∉ twins.front.map (·.name)

theorem Linked.find (linked : twins.Linked r s t) (apart : twins.Apart name) :
    (findVariable? s.table name = none ∧ findVariable? t.table name = none) ∨
      ∃ type v w, findVariable? s.table name = some ⟨name,type,v⟩ ∧
        findVariable? t.table name = some ⟨name,type,w⟩ ∧ v.Linked r w := by
  obtain ⟨copy,table,copies⟩ := linked.table
  rw [table,findBehind apart]
  exact copies.find name

theorem readVariableCarries (linked : twins.Linked r s t) (apart : twins.Apart name) :
    twins.Carries r s t (readVariable name) (readVariable name) TypedValue.Linked := by
  intro a next ok
  obtain ⟨_,_,got,rest⟩ := bindOk ok
  cases got
  rcases linked.find apart with ⟨none,_⟩ | ⟨type,v,w,first,second,values⟩
  · rw [none] at rest
    cases rest
  · rw [first] at rest
    cases rest
    refine ⟨r,⟨type,w⟩,t,(runBindOk rfl _).trans ?_,linked.here,rfl,values⟩
    rw [second]
    rfl

theorem bindVariableCarries (linked : twins.Linked r s t) (apart : twins.Apart name)
    (type : StaticType) :
    twins.Carries r s t (bindVariable name type) (bindVariable name type) fun _ _ _ => True := by
  intro a next ok
  cases ok
  rcases linked.find apart with ⟨first,second⟩ | ⟨type,v,w,first,second,values⟩
  · obtain ⟨copy,table,copies⟩ := linked.table
    have grown := linked.retabled (copies.append name type (.plain (Value.initialRef type)))
    refine ⟨r,(),_,rfl,?_,trivial⟩
    simp only [first,second]
    simp only [table,List.append_assoc]
    exact grown
  · refine ⟨r,(),_,rfl,?_,trivial⟩
    simp only [first,second]
    exact linked.here

theorem declareVariableCarries (linked : twins.Linked r s t) (apart : twins.Apart name)
    {a b : TypedValue} (values : a.Linked r b) :
    twins.Carries r s t (declareVariable name a) (declareVariable name b) fun _ _ _ => True := by
  intro u next ok
  obtain ⟨_,_,got,rest⟩ := bindOk ok
  cases got
  rcases linked.find apart with ⟨first,second⟩ | ⟨type,v,w,first,second,known⟩
  · obtain ⟨copy,table,copies⟩ := linked.table
    rw [first] at rest
    cases rest
    have grown := linked.retabled (copies.append name a.type values.value)
    refine ⟨r,(),_,(runBindOk rfl _).trans ?_,grown,trivial⟩
    rw [second]
    simp only [table,List.append_assoc,values.type]
    rfl
  · rw [first] at rest
    cases rest

theorem assignVariableCarries (linked : twins.Linked r s t) (apart : twins.Apart name)
    {a b : TypedValue} (values : a.Linked r b) :
    twins.Carries r s t (assignVariable name a) (assignVariable name b) TypedValue.Linked := by
  intro c next ok
  obtain ⟨_,_,got,rest⟩ := bindOk ok
  cases got
  rcases linked.find apart with ⟨none,_⟩ | ⟨type,v,w,first,second,_⟩
  · rw [none] at rest
    cases rest
  · obtain ⟨copy,table,copies⟩ := linked.table
    have converted := values.convertTo type
    rw [first] at rest
    cases rest
    have changed := linked.retabled (copies.set converted name)
    refine ⟨r,⟨type,b.convertTo type⟩,_,(runBindOk rfl _).trans ?_,changed,rfl,converted⟩
    rw [second]
    simp only [table,setBehind _ apart]
    rfl

theorem readKeyCarries (linked : twins.Linked r s t) {key other : Value}
    (keys : key.Linked r other) :
    twins.Carries r s t (readKey key) (readKey other) TypedValue.Linked := by
  intro a next ok
  cases ok
  refine ⟨r,_,t,rfl,linked.here,rfl,?_⟩
  simp only [keys.sameText]
  exact linked.store.get _

theorem assignKeyCarries (linked : twins.Linked r s t) {key other v w : Value}
    (keys : key.Linked r other) (values : v.Linked r w) :
    twins.Carries r s t (assignKey key v) (assignKey other w) TypedValue.Linked := by
  intro a next ok
  cases ok
  refine ⟨r,_,_,rfl,?_,rfl,values⟩
  simp only [keys.sameText]
  exact ⟨r.growsRefl _ _,Heap.withinRefl _,Heap.withinRefl _,
    { linked with store := linked.store.set values _ }⟩

theorem askCarries {α : Type} (linked : twins.Linked r s t) {question : Nat → Option Property}
    {f : Property → α}
    (same : ∀ query later, (question query).map f = (question later).map f) :
    twins.Carries r s t (ask question) (ask question)
      fun _ => Option.Rel fun p p' => f p = f p' := by
  have found : Option.Rel (fun p p' => f p = f p') (question s.queries) (question t.queries) := by
    have mapped := same s.queries t.queries
    generalize question s.queries = left at mapped ⊢
    generalize question t.queries = right at mapped ⊢
    cases left with
    | none =>
      cases Option.map_eq_none_iff.mp mapped.symm
      exact .none
    | some p =>
      obtain ⟨p',rfl,equal⟩ := Option.map_eq_some_iff.mp mapped.symm
      exact .some equal.symm
  intro p next ok
  cases ok
  exact ⟨r,_,_,rfl,⟨r.growsRefl _ _,Heap.withinRefl _,Heap.withinRefl _,{ linked with }⟩,found⟩

theorem callGetterCarries (uniform : twins.host.Uniform twins.own) (linked : twins.Linked r s t)
    {p p' : Property} (same : p.read twins.host = p'.read twins.host) :
    twins.Carries r s t (callGetter twins.host p) (callGetter twins.host p') TypedValue.Linked := by
  intro a next ok
  have other := callGetterRun twins.host p' t
  rw [callGetterRun] at ok
  rw [← same] at other
  cases answered : p.read twins.host s.context.environment s.context.heap with
  | none =>
    have unanswered : p.read twins.host t.context.environment t.context.heap = none := by
      simpa only [Property.read,Option.map_eq_none_iff] using answered
    rw [answered] at ok
    rw [unanswered] at other
    cases ok
    exact ⟨r,_,t,other,linked.here,rfl,.plain rfl⟩
  | some reading =>
    obtain ⟨q,second,found,grows,joins,values⟩ :=
      p.readUniform uniform linked.own linked.around answered
    have left := Property.readKeeps Heap.withinRefl uniform.kept.getters answered
    have right := Property.readKeeps Heap.withinRefl uniform.kept.getters found
    rw [answered] at ok
    rw [found] at other
    cases ok
    have around : Surroundings.Linked q
        ⟨s.context.environment,reading.heap⟩ ⟨t.context.environment,second.heap⟩ :=
      ⟨linked.environment.mono grows.more,joins⟩
    exact ⟨q,_,_,other,⟨grows,left,right,linked.surrounded grows.more around⟩,rfl,values⟩

theorem callSetterCarries (uniform : twins.host.Uniform twins.own) (linked : twins.Linked r s t)
    {p p' : Property} (same : p.write twins.host = p'.write twins.host) {v w : Value}
    (values : v.Linked r w) :
    twins.Carries r s t (callSetter twins.host p v) (callSetter twins.host p' w)
      TypedValue.Linked := by
  intro a next ok
  have other := callSetterRun twins.host p' w t
  rw [callSetterRun] at ok
  rw [← same] at other
  have left := p.writeKeeps Heap.withinRefl uniform.kept.setters v
    ⟨s.context.environment,s.context.heap⟩
  have right := p.writeKeeps Heap.withinRefl uniform.kept.setters w
    ⟨t.context.environment,t.context.heap⟩
  cases written : (p.write twins.host v).run ⟨s.context.environment,s.context.heap⟩ with
  | error e after =>
    rw [written] at ok
    cases ok
  | ok u after =>
    obtain ⟨q,later,also,grows,around⟩ :=
      p.writeUniform uniform linked.own linked.around values written
    rw [written] at ok left
    rw [also] at other right
    cases ok
    exact ⟨q,_,_,other,⟨grows,left,right,linked.surrounded grows.more around⟩,rfl,
      values.mono grows.more⟩

end Twins

structure Heap.Fills (id : ArrayId) (old new : Heap) : Prop where
  sizes : old.size ≤ new.size
  others : ∀ a cell, a ≠ id → old.cell? a = some cell → new.cell? a = some cell

namespace Heap

theorem Within.fills {old new : Heap} (kept : old.Within new) (id : ArrayId) :
    Fills id old new :=
  ⟨kept.sizes,fun a cell _ known => kept a cell known⟩

theorem fillsSetItem (heap : Heap) (id : ArrayId) (index : Nat) (v : Value) :
    Fills id heap (heap.setItem id index v) := by
  refine ⟨Nat.le_of_eq (sizeSetItem heap id index v).symm,?_⟩
  intro a cell other known
  rw [cellSetItem,if_neg other.symm]
  exact known

theorem Fills.trans {id : ArrayId} {first second third : Heap} (before : Fills id first second)
    (after : Fills id second third) : Fills id first third :=
  ⟨Nat.le_trans before.sizes after.sizes,
    fun a cell other known => after.others a cell other (before.others a cell other known)⟩

end Heap

namespace Twins
variable {twins : Twins} {r q : Links} {id other : ArrayId} {s t next later : EvalState}

/-- An array is being filled in each of the evaluations; nothing refers to it yet. -/
structure Filling (twins : Twins) (r : Links) (id other : ArrayId) (s t : EvalState) : Prop where
  linked : twins.Linked r s t
  left : ∀ b, ¬ r id b
  right : ∀ a, ¬ r a other
  cells : ∃ c d, s.context.heap.cell? id = some c ∧ t.context.heap.cell? other = some d ∧
    c.Linked r d

namespace Filling

theorem start (linked : twins.Linked r s t) (element : StaticType) (count : Nat) :
    twins.Filling r s.context.heap.size t.context.heap.size
      { s with context := { s.context with heap := (s.context.heap.alloc
        ⟨element,Array.replicate count element.initial⟩).2 } }
      { t with context := { t.context with heap := (t.context.heap.alloc
        ⟨element,Array.replicate count element.initial⟩).2 } } := by
  have fresh (heap : Heap) (cell : ArrayCell) : (heap.alloc cell).2.cell? heap.size = some cell := by
    rw [Heap.cellAlloc,if_pos rfl]
  refine ⟨{ linked with heap := ?_ },?_,?_,_,_,fresh _ _,fresh _ _,.filled element count⟩
  · exact linked.heap.within (Heap.withinAlloc _ _) (Heap.withinAlloc _ _)
  · intro b known
    exact Nat.lt_irrefl _ (linked.heap.below known).1
  · intro a known
    exact Nat.lt_irrefl _ (linked.heap.below known).2

theorem kept (filling : twins.Filling r id other s t) (reached : twins.Reached r s t q next later) :
    twins.Filling q id other next later := by
  obtain ⟨c,d,first,second,cells⟩ := filling.cells
  refine ⟨reached.linked,?_,?_,c,d,reached.left id c first,reached.right other d second,
    cells.mono reached.grows.more⟩
  · intro b known
    rcases reached.grows.first known with ⟨b,before⟩ | new
    · exact filling.left b before
    · exact Nat.not_lt.mpr new (Heap.cellBelow first)
  · intro a known
    rcases reached.grows.second known with ⟨a,before⟩ | new
    · exact filling.right a before
    · exact Nat.not_lt.mpr new (Heap.cellBelow second)

theorem stored (filling : twins.Filling r id other s t) (index : Nat) {v w : Value}
    (values : v.Linked r w) :
    twins.Filling r id other
      { s with context := { s.context with heap := s.context.heap.setItem id index v } }
      { t with context := { t.context with heap := t.context.heap.setItem other index w } } := by
  obtain ⟨c,d,first,second,cells⟩ := filling.cells
  have changed (heap : Heap) (id : ArrayId) (cell : ArrayCell) (v : Value)
      (known : heap.cell? id = some cell) : (heap.setItem id index v).cell? id =
        some { cell with items := cell.items.setIfInBounds index v } := by
    rw [Heap.cellSetItem,if_pos rfl,known]
    rfl
  refine ⟨{ filling.linked with heap := ?_ },filling.left,filling.right,_,_,
    changed _ _ _ _ first,changed _ _ _ _ second,cells.setItem values index⟩
  intro a b known
  obtain ⟨x,y,left,right,linked⟩ := filling.linked.heap a b known
  -- linked arrays are other arrays than those being filled
  have apart : a ≠ id := fun same => filling.left b (same ▸ known)
  have away : b ≠ other := fun same => filling.right a (same ▸ known)
  exact ⟨x,y,(Heap.fillsSetItem _ _ _ _).others a x apart left,
    (Heap.fillsSetItem _ _ _ _).others b y away right,linked⟩

theorem publish (filling : twins.Filling r id other s t) :
    twins.Linked (fun a b => r a b ∨ a = id ∧ b = other) s t := by
  obtain ⟨c,d,first,second,cells⟩ := filling.cells
  have more {a b : ArrayId} (known : r a b) : r a b ∨ a = id ∧ b = other := .inl known
  have around : Surroundings.Linked (fun a b => r a b ∨ a = id ∧ b = other)
      ⟨s.context.environment,s.context.heap⟩ ⟨t.context.environment,t.context.heap⟩ :=
    ⟨filling.linked.environment.mono more,filling.linked.heap.add first second cells⟩
  exact filling.linked.surrounded more around

end Filling

structure Filled (twins : Twins) (r : Links) (id other : ArrayId) (s t : EvalState) (q : Links)
    (next later : EvalState) : Prop where
  grows : r.Grows q s.context.heap.size t.context.heap.size
  left : Heap.Fills id s.context.heap next.context.heap
  right : Heap.Fills other t.context.heap later.context.heap
  filling : twins.Filling q id other next later

theorem Filled.trans {p : Links} {last final : EvalState}
    (before : twins.Filled r id other s t q next later)
    (after : twins.Filled q id other next later p last final) :
    twins.Filled r id other s t p last final :=
  ⟨before.grows.trans after.grows before.left.sizes before.right.sizes,
    before.left.trans after.left,before.right.trans after.right,after.filling⟩

theorem Filling.item (filling : twins.Filling r id other s t)
    (reached : twins.Reached r s t q next later) (index : Nat) {v w : Value}
    (values : v.Linked q w) :
    twins.Filled r id other s t q
      { next with context := { next.context with heap := next.context.heap.setItem id index v } }
      { later with context :=
        { later.context with heap := later.context.heap.setItem other index w } } :=
  ⟨reached.grows,(reached.left.fills id).trans (Heap.fillsSetItem _ _ _ _),
    (reached.right.fills other).trans (Heap.fillsSetItem _ _ _ _),
    (filling.kept reached).stored index values⟩

theorem Filled.published {cell : ArrayCell} (filled : twins.Filled r s.context.heap.size
      t.context.heap.size
      { s with context := { s.context with heap := (s.context.heap.alloc cell).2 } }
      { t with context := { t.context with heap := (t.context.heap.alloc cell).2 } }
      q next later) :
    twins.Reached r s t
      (fun a b => q a b ∨ a = s.context.heap.size ∧ b = t.context.heap.size) next later := by
  have older (heap new : Heap) (fills : Heap.Fills heap.size (heap.alloc cell).2 new) :
      heap.Within new := by
    intro id there known
    exact fills.others id there (Nat.ne_of_lt (Heap.cellBelow known))
      (Heap.withinAlloc heap cell id there known)
  have larger (heap : Heap) : heap.size ≤ (heap.alloc cell).2.size := (Heap.withinAlloc _ _).sizes
  have grows := (r.growsRefl _ _).trans filled.grows (larger _) (larger _)
  refine ⟨⟨?_,?_,?_⟩,older _ _ filled.left,older _ _ filled.right,filled.filling.publish⟩
  · intro a b known
    exact .inl (filled.grows.more known)
  · rintro a b (known | ⟨rfl,rfl⟩)
    · exact grows.first known
    · exact .inr (Nat.le_refl _)
  · rintro a b (known | ⟨rfl,rfl⟩)
    · exact grows.second known
    · exact .inr (Nat.le_refl _)

end Twins

def Expr.Carried (twins : Twins) (e : Expr) : Prop :=
  ∀ {r s t}, twins.Linked r s t → (∀ name ∈ e.names, twins.Apart name) →
    twins.Carries r s t (e.eval twins.first) (e.eval twins.second) TypedValue.Linked

def ItemsCarried (twins : Twins) (element : StaticType) (index : Nat) (items : List Expr) : Prop :=
  ∀ {r s t id other next}, twins.Filling r id other s t →
    (∀ name ∈ Expr.namesAll items, twins.Apart name) →
    (Expr.evalItems twins.first id element index items).run s = .ok () next →
    ∃ q later, (Expr.evalItems twins.second other element index items).run t = .ok () later ∧
      twins.Filled r id other s t q next later

namespace Twins
open EvalM
variable {twins : Twins}

theorem readPropertyCarried (uniform : twins.host.Uniform twins.own)
    (consistent : twins.setup.lookup.Consistent twins.host) (name : String) (span : Span) :
    (Expr.property name span).Carried twins := by
  intro r s t linked apart
  unfold Expr.eval readProperty
  refine .bind (askCarries linked (consistent.getters name)) ?_
  intro q p p' next later reached same
  cases same with
  | none => exact .pure reached.linked ⟨rfl,.plain rfl⟩
  | some same => exact callGetterCarries uniform reached.linked same

theorem assignPropertyCarried (uniform : twins.host.Uniform twins.own)
    (consistent : twins.setup.lookup.Consistent twins.host) (name : String) {value : Expr}
    (place span : Span) (carried : value.Carried twins) :
    (Expr.assign (.property name place) value span).Carried twins := by
  intro r s t linked apart
  unfold Expr.eval assignProperty
  refine .bind (askCarries linked (consistent.setters name)) ?_
  intro q p p' next later reached same
  cases same with
  | none => exact .pure reached.linked ⟨rfl,.plain rfl⟩
  | some same =>
    refine .bind (carried reached.linked fun name member => apart name ?_) ?_
    · exact List.mem_append_right _ member
    · intro q a b next later further values
      exact callSetterCarries uniform further.linked same (values.convertTo .object)

theorem indexedCarried (base : Expr) {key : Expr} (span : Span) (carried : key.Carried twins) :
    (Expr.indexed base key span).Carried twins := by
  intro r s t linked apart
  rw [Expr.evalIndexed,Expr.evalIndexed]
  refine .bind (carried linked apart) ?_
  intro q a b next later reached keys
  exact readKeyCarries reached.linked (keys.convertTo .string)

theorem assignLocalCarried (name : String) {value : Expr} (place span : Span)
    (carried : value.Carried twins) :
    (Expr.assign (.localRef name place) value span).Carried twins := by
  intro r s t linked apart
  have free : twins.Apart name := apart name (List.mem_append_left _ List.mem_cons_self)
  unfold Expr.eval
  refine .bind (bindVariableCarries linked free _) ?_
  intro q _ _ next later reached _
  refine .bind (carried reached.linked fun name member => apart name ?_) ?_
  · exact List.mem_append_right _ member
  · intro q a b next later further values
    exact assignVariableCarries further.linked free values

theorem assignIndexedCarried (base : Expr) {key value : Expr} (place span : Span)
    (keyCarried : key.Carried twins) (carried : value.Carried twins) :
    (Expr.assign (.indexed base key place) value span).Carried twins := by
  intro r s t linked apart
  unfold Expr.eval
  refine .bind (keyCarried linked fun name member => apart name ?_) ?_
  · exact List.mem_append_left _ member
  · intro q a b next later reached keys
    refine .bind (carried reached.linked fun name member => apart name ?_) ?_
    · exact List.mem_append_right _ member
    · intro q c d next later further values
      exact assignKeyCarries further.linked ((keys.mono further.grows.more).convertTo .string)
        (values.convertTo .object)

theorem moreItemsCarried {element : StaticType} {index : Nat} {item : Expr} {items : List Expr}
    (carried : item.Carried twins) (others : ItemsCarried twins element (index + 1) items) :
    ItemsCarried twins element index (item :: items) := by
  intro r s t id other last filling apart ok
  unfold Expr.evalItems at ok ⊢
  obtain ⟨a,next,evaluated,rest⟩ := bindOk ok
  obtain ⟨q,b,later,also,reached,values⟩ := carried filling.linked
    (fun name member => apart name (List.mem_append_left _ member)) evaluated
  have filled := filling.item reached index (values.convertTo element)
  obtain ⟨p,final,ended,further⟩ := others filled.filling
    (fun name member => apart name (List.mem_append_right _ member)) rest
  exact ⟨p,final,(runBindOk also _).trans ended,filled.trans further⟩

theorem arrayOfCarried (name : String) {items : List Expr} (span : Span)
    (carried : ∀ element, ItemsCarried twins element 0 items) :
    (Expr.arrayOf name items span).Carried twins := by
  intro r s t linked apart a last ok
  unfold Expr.eval elementType at ok ⊢
  cases known : StaticType.ofName? name with
  | none =>
    rw [known] at ok
    cases ok
  | some element =>
    rw [known] at ok
    obtain ⟨_,_,named,rest⟩ := bindOk ok
    cases named
    obtain ⟨_,_,allocated,rest⟩ := bindOk rest
    cases allocated
    obtain ⟨u,next,evaluated,rest⟩ := bindOk rest
    cases rest
    obtain ⟨q,later,also,filled⟩ := carried element (.start linked element items.length) apart
      evaluated
    exact ⟨_,⟨.array element,.array t.context.heap.size⟩,later,runBindOk also _,
      filled.published,rfl,.array (.inr ⟨rfl,rfl⟩)⟩

theorem carried (uniform : twins.host.Uniform twins.own)
    (consistent : twins.setup.lookup.Consistent twins.host) (e : Expr) : e.Carried twins := by
  refine Expr.compile.induct (Expr.Carried twins) (ItemsCarried twins)
    ?constant ?null ?localRef ?argument ?indexed ?property ?arrayOf ?assignLocal ?assignIndexed
    ?assignProperty ?unassignable ?noItems ?moreItems e
  case constant =>
    intro c span r s t linked apart
    exact .pure linked ⟨rfl,.plain (constantRef c)⟩
  case null =>
    intro span r s t linked apart
    exact .pure linked ⟨rfl,.plain rfl⟩
  case localRef =>
    intro name span r s t linked apart
    unfold Expr.eval
    exact readVariableCarries linked (apart name List.mem_cons_self)
  case argument =>
    intro index span r s t linked apart
    exact .pure linked ⟨rfl,.array linked.arguments⟩
  case indexed =>
    intro base key span keyCarried
    exact indexedCarried base span keyCarried
  case property => exact readPropertyCarried uniform consistent
  case arrayOf =>
    intro name items span itemsCarried
    exact arrayOfCarried name span itemsCarried
  case assignLocal =>
    intro name place value span valueCarried
    exact assignLocalCarried name place span valueCarried
  case assignIndexed =>
    intro base key place value span keyCarried valueCarried
    exact assignIndexedCarried base place span keyCarried valueCarried
  case assignProperty =>
    intro name place value span valueCarried
    exact assignPropertyCarried uniform consistent name place span valueCarried
  case unassignable =>
    intro target value span notLocal notIndexed notProperty r s t linked apart a next ok
    cases target with
    | localRef name place => exact (notLocal name place rfl).elim
    | indexed base key place => exact (notIndexed base key place rfl).elim
    | property name place => exact (notProperty name place rfl).elim
    | constant | null | argument | arrayOf | assign => cases ok
  case noItems =>
    intro element index r s t id other next filling apart ok
    cases ok
    exact ⟨r,t,rfl,r.growsRefl _ _,(Heap.withinRefl _).fills id,(Heap.withinRefl _).fills other,
      filling⟩
  case moreItems =>
    intro element index item items itemCarried others
    exact moreItemsCarried itemCarried others

theorem statementCarries (uniform : twins.host.Uniform twins.own)
    (consistent : twins.setup.lookup.Consistent twins.host) (stmt : Stmt) {r : Links}
    {s t : EvalState} (linked : twins.Linked r s t)
    (apart : ∀ name ∈ stmt.names, twins.Apart name) :
    twins.Carries r s t (stmt.eval twins.first) (stmt.eval twins.second) fun _ _ _ => True := by
  cases stmt with
  | declare name init span =>
    refine .bind (carried uniform consistent init linked fun name member => apart name ?_) ?_
    · exact List.mem_cons_of_mem _ member
    · intro q a b next later reached values
      exact declareVariableCarries reached.linked (apart name List.mem_cons_self) values
  | assign target value span =>
    refine .bind (carried uniform consistent (.assign target value span) linked apart) ?_
    intro q a b next later reached _
    exact .pure reached.linked trivial
  | evaluate e span =>
    refine .bind (carried uniform consistent e linked apart) ?_
    intro q a b next later reached _
    exact .pure reached.linked trivial

theorem Linked.bodyCarries {r : Links} {s t : EvalState} (linked : twins.Linked r s t)
    (uniform : twins.host.Uniform twins.own)
    (consistent : twins.setup.lookup.Consistent twins.host) (body : List Stmt)
    (apart : ∀ name ∈ bodyNames body, twins.Apart name) :
    twins.Carries r s t (evalBody twins.first body) (evalBody twins.second body)
      fun _ _ _ => True := by
  induction body generalizing r s t with
  | nil => exact .pure linked trivial
  | cons stmt rest ih =>
    simp only [bodyNames,List.flatMap_cons,List.mem_append] at apart
    unfold evalBody
    refine .bind (statementCarries uniform consistent stmt linked fun name member =>
      apart name (.inl member)) ?_
    intro q _ _ next later reached _
    exact ih reached.linked fun name member => apart name (.inr member)

end Twins
end ScriptMachine
