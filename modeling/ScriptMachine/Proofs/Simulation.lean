import ScriptMachine.Proofs.Matching
import ScriptMachine.Proofs.Refinement
/-! The code of every expression, statement and method body does what evaluating
it does. The code of an expression leaves the value, typed as the compiler says,
on top of what was on the stack; the code of a statement leaves the stack as it
was. -/
namespace ScriptMachine

def Setting.evaluator (setting : Setting) (setup : CompileSetup) : Evaluator :=
  ⟨setting.host,setup,setting.arguments⟩

/-- What is assumed of a run: its host keeps the shape of arrays, and where typing
is strict a name bound by an assignment gets a type whose zero value is of it. -/
structure Sane (strict : Prop) (host : Host) (options : CompileOptions) : Prop where
  contract : host.Keeps Heap.SameShapes
  implicit : strict → options.implicitType ≠ .void ∧ options.implicitType ≠ .string

structure Leaves (strict : Prop) (setting : Setting) (before after : Draft) (m : Machine)
    (heap : Heap) (r : TypedValue) (next : EvalState) (reached : Machine) : Prop where
  typed : r.value.Typed strict r.type
  stack : reached.stack = r.value :: m.stack
  sync : Sync strict setting.method after next reached
  shapes : heap.SameShapes next.context.heap
  solid : before.Solid → after.Solid ∧ r.type ≠ .void

def TypedValue.as (wanted : StaticType) (r : TypedValue) : TypedValue :=
  ⟨wanted,r.convertTo wanted⟩

def Simulates (strict : Prop) (setting : Setting) (d : Draft) (piece : Piece) (after : Draft)
    (x : EvalM TypedValue) (seen : TypedValue → TypedValue) : Prop :=
  ∀ (offset : Nat) ⦃m : Machine⦄ ⦃s : EvalState⦄, after.PartOf setting.method →
    Sync strict setting.method d s m → m.stack.length ≤ setting.limit →
    Refines strict setting offset piece.code x m s fun r next reached =>
      (seen r).type = piece.type ∧
        Leaves strict setting d after m s.context.heap (seen r) next reached

namespace Property
variable {p q : Property}

theorem readShared (shared : q.sharesAccessors p = true) (host : Host) :
    q.read host = p.read host := by
  simp only [sharesAccessors,Bool.and_eq_true,beq_iff_eq] at shared
  funext env heap
  simp only [read,shared.1.2]

theorem writeShared (shared : q.sharesAccessors p = true) (host : Host) :
    q.write host = p.write host := by
  simp only [sharesAccessors,Bool.and_eq_true,beq_iff_eq] at shared
  funext v
  simp only [write,shared.2]

theorem readInhabits {host : Host} {env : Environment} {heap : Heap} {reading : Reading}
    (known : p.read host env heap = some reading) : reading.value.Inhabits .object := by
  obtain ⟨getter,_,rfl⟩ := Option.map_eq_some_iff.mp known
  exact Value.asObjectInhabits _

end Property

section Expressions
variable {strict : Prop} {setting : Setting} {setup : CompileSetup} {d after : Draft}
variable {offset : Nat} {m : Machine} {s : EvalState}

theorem Refines.pushed {i : Instruction} {x : EvalM TypedValue} {r : TypedValue}
    {type : StaticType} (pushes : (step setting offset i).run m =
      (MachineM.push setting.limit offset r.value).run m)
    (room : m.stack.length ≤ setting.limit) (evaluated : x.run s = .ok r s)
    (same : r.type = type) (typed : r.value.Typed strict r.type)
    (sync : Sync strict setting.method after s m)
    (solid : d.Solid → after.Solid ∧ r.type ≠ .void) :
    Refines strict setting offset [i] x m s
      fun r next reached => r.type = type ∧
        Leaves strict setting d after m s.context.heap r next reached := by
  refine .push room pushes rfl ?_
  intro inside
  exact .nil evaluated ⟨same,typed,rfl,sync.withStack _,Heap.sameShapesRefl _,solid⟩

theorem coercionRefines {r : TypedValue} {wanted : StaticType} {code : List Instruction}
    (coerces : Coerces r.type wanted code) (typed : r.value.Typed strict r.type)
    {rest : List Value} (top : m.stack = r.value :: rest) (room : m.stack.length ≤ setting.limit) :
    Refines strict setting offset code (pure r) m s fun a next reached =>
      a = r ∧ next = s ∧ reached = m.withStack (r.convertTo wanted :: rest) ∧
        (r.convertTo wanted).Typed strict wanted := by
  obtain ⟨type,v⟩ := r
  have kept : m = m.withStack (v :: rest) := by
    rw [← show m.stack = v :: rest from top]
    rfl
  cases coerces with
  | same =>
    have taken : (⟨type,v⟩ : TypedValue).convertTo type = v := by simp [TypedValue.convertTo]
    rw [taken]
    exact .nil rfl ⟨rfl,rfl,kept,typed⟩
  | object source reference other =>
    have object : v.isRaw = false := (typed.raw other).trans reference
    have taken : (⟨type,v⟩ : TypedValue).convertTo .object = v := by
      simp [TypedValue.convertTo,other,Value.convertTo,Value.asObjectSame object]
    rw [taken]
    exact .nil rfl ⟨rfl,rfl,kept,(Value.Inhabits.ofObject object).typed strict⟩
  | array element other =>
    have taken : (⟨.array element,v⟩ : TypedValue).convertTo (.array .object) = v := by
      simp [TypedValue.convertTo,other,Value.convertTo]
    rw [taken]
    exact .nil rfl ⟨rfl,rfl,kept,typed.anyArray⟩
  | boxed source valueType =>
    have other : type ≠ .object := by rintro rfl; cases valueType
    have raw : v.isRaw = true := (typed.raw other).trans valueType
    have boxed : (⟨type,v⟩ : TypedValue).convertTo .object = .boxed v := by
      simp [TypedValue.convertTo,other,Value.convertTo,Value.asObject,raw]
    rw [boxed]
    refine .cons room (boxStep type raw top room) ?_
    intro _
    exact .nil rfl ⟨rfl,rfl,rfl,(Value.Inhabits.ofObject rfl).typed strict⟩
  | forced source target reference other =>
    have forced : (⟨type,v⟩ : TypedValue).convertTo target.type = v.convert target := by
      simp [TypedValue.convertTo,other,Value.convertToScalar]
    have trusted : strict → v.isRaw = false :=
      fun holds => (Value.fitsRaw (typed.inhabits holds).1).trans reference
    rw [forced]
    refine .checked room (forceStep target top room) trusted ?_
    intro object _
    exact .nil rfl ⟨rfl,rfl,rfl,(v.convertInhabits target).typed strict⟩
  | boxedForced source target valueType other =>
    have notObject : type ≠ .object := by rintro rfl; cases valueType
    have raw : v.isRaw = true := (typed.raw notObject).trans valueType
    have forced : (⟨type,v⟩ : TypedValue).convertTo target.type =
        (Value.boxed v).convert target := by
      simp [TypedValue.convertTo,other,Value.convertToScalar,Value.convertBoxed raw]
    rw [forced]
    refine .cons room (boxStep type raw top room) ?_
    intro inside
    refine .cons inside ((forceStep target rfl inside).passes rfl) ?_
    intro _
    exact .nil rfl ⟨rfl,rfl,rfl,(Value.convertInhabits _ target).typed strict⟩

theorem Simulates.converted {piece : Piece} {x : EvalM TypedValue}
    (simulates : Simulates strict setting d piece after x id) {wanted : StaticType}
    {conversion : List Instruction} (coerces : Coerces piece.type wanted conversion) :
    Simulates strict setting d ⟨piece.code ++ conversion,wanted⟩ after x (.as wanted) := by
  intro offset m s part sync room
  refine .appendCode room (simulates offset part sync room) ?_
  rintro r next reached inside ⟨same,leaves⟩
  rw [← same] at coerces
  refine .weaken (coercionRefines coerces leaves.typed leaves.stack inside) ?_
  rintro a last final ⟨rfl,rfl,rfl,typed⟩
  refine ⟨rfl,typed,rfl,leaves.sync.withStack _,leaves.shapes,?_⟩
  intro solid
  exact ⟨(leaves.solid solid).1,coerces.solid (leaves.solid solid).2⟩

theorem constantSimulated (c : Constant) (span : Span) :
    Simulates strict setting d ⟨[.pushConst c],c.type⟩ d
      ((Expr.constant c span).eval (setting.evaluator setup)) id := by
  intro offset m s part sync room
  unfold Expr.eval
  have solid : c.type ≠ .void := by cases c <;> exact StaticType.noConfusion
  exact .pushed (r := ⟨c.type,c.value⟩) rfl room rfl rfl ((Value.constantInhabits c).typed strict)
    sync fun before => ⟨before,solid⟩

theorem nullSimulated (span : Span) :
    Simulates strict setting d ⟨[.pushNull],.object⟩ d
      ((Expr.null span).eval (setting.evaluator setup)) id := by
  intro offset m s part sync room
  unfold Expr.eval
  exact .pushed (r := ⟨.object,.null⟩) rfl room rfl rfl
    ((Value.Inhabits.ofObject rfl).typed strict) sync fun before => ⟨before,StaticType.noConfusion⟩

theorem argumentSimulated (index : Nat) (span : Span) :
    Simulates strict setting d ⟨[.loadArgument 0],.array .object⟩ d
      ((Expr.argument index span).eval (setting.evaluator setup)) id := by
  intro offset m s part sync room
  unfold Expr.eval
  exact .pushed (r := ⟨.array .object,.array setting.arguments⟩) rfl room rfl rfl
    ((Value.arrayInhabits _ _).typed strict) sync fun before => ⟨before,StaticType.noConfusion⟩

theorem localSimulated {name : String} {b : Binding} (span : Span)
    (found : d.scope.find? name = some b) :
    Simulates strict setting d ⟨[.loadLocal b.slot],b.entry.type⟩ d
      ((Expr.localRef name span).eval (setting.evaluator setup)) id := by
  intro offset m s part sync room
  obtain ⟨w,there,held,typed⟩ := sync.read found
  have evaluated : (EvalM.readVariable name).run s = .ok ⟨b.entry.type,w⟩ s := by
    simp only [EvalM.readVariable,EStateM.run_bind,EStateM.run_get,there,EStateM.run_pure]
  unfold Expr.eval
  exact .pushed (r := ⟨b.entry.type,w⟩) (loadLocalStep held) room evaluated rfl typed sync
    fun before => ⟨before,before.found found⟩

theorem indexedSimulated (base : Expr) {key : Expr} (span : Span) {code : List Instruction}
    (keys : Simulates strict setting d ⟨code,.string⟩ after
      (key.eval (setting.evaluator setup)) (.as .string)) :
    Simulates strict setting d ⟨.loadStore :: code ++ [.call .storeGet],.object⟩ after
      ((Expr.indexed base key span).eval (setting.evaluator setup)) id := by
  intro offset m s part sync room
  simp only [List.cons_append]
  rw [Expr.evalIndexed]
  refine .push room rfl rfl ?_
  intro inside
  refine .append inside (keys _ part (sync.withStack _) inside) ?_
  rintro k next reached below ⟨_,leaves⟩
  refine .checked below (storeGetStep leaves.stack below)
    (fun holds => (leaves.typed.inhabits holds).text) ?_
  intro text _
  rw [leaves.sync.context]
  exact .nil rfl ⟨rfl,Store.getTyped leaves.sync.objects _,rfl,leaves.sync.withStack _,
    leaves.shapes,fun before => ⟨(leaves.solid before).1,StaticType.noConfusion⟩⟩

theorem askRefines (sync : Sync strict setting.method d s m) (question : Nat → Option Property) :
    (EvalM.ask question).run s =
      .ok (question d.queries) { s with queries := s.queries + 1 } := by
  rw [← sync.queries]
  rfl

theorem unknownSimulated {x : Option Property → EvalM TypedValue}
    {question : Nat → Option Property} (unknown : question d.queries = none)
    (null : x none = pure ⟨.object,.null⟩) :
    Simulates strict setting d ⟨[.pushNull],.object⟩ (CompileM.asked d)
      (EvalM.ask question >>= x) id := by
  intro offset m s part sync room
  refine .evaluate (askRefines sync question) ?_
  rw [unknown,null]
  exact .pushed (r := ⟨.object,.null⟩) rfl room rfl rfl
    ((Value.Inhabits.ofObject rfl).typed strict) sync.asked
    fun before => ⟨before,StaticType.noConfusion⟩

theorem readSimulated (contract : setting.host.GettersKeep Heap.SameShapes) {name : String}
    {span : Span} {p : Property} {index : Nat}
    (known : setup.lookup.resolveGetter d.queries name = some p)
    (recorded : (CompileM.recordAccessor p span).run (CompileM.asked d) = .ok index after) :
    Simulates strict setting d ⟨[.callGetter index],.object⟩ after
      ((Expr.property name span).eval (setting.evaluator setup)) id := by
  intro offset m s part sync room
  unfold Expr.eval EvalM.readProperty
  refine .evaluate (askRefines sync _) ?_
  simp only [Setting.evaluator]
  obtain ⟨⟨q,held,shared⟩,accessors,grown,rfl⟩ :=
    CompileM.recordAccessorOk (setup.lookup.getterFound known) recorded
  have null : Value.null.Typed strict .object := (Value.Inhabits.ofObject rfl).typed strict
  have asked := sync.asked.withAccessors accessors
  have stepped : (step setting offset (.callGetter index)).run m = _ :=
    callGetterStep (prefixAt part.accessors held)
  rw [Property.readShared shared,sync.context] at stepped
  have evaluated := EvalM.callGetterRun setting.host p { s with queries := s.queries + 1 }
  rw [known]
  cases reading : p.read setting.host s.context.environment s.context.heap with
  | none =>
    rw [reading] at stepped evaluated
    exact .pushed (r := ⟨.object,.null⟩) stepped room evaluated rfl null asked
      fun before => ⟨before,StaticType.noConfusion⟩
  | some made =>
    rw [reading] at stepped evaluated
    refine .push room stepped rfl ?_
    intro inside
    exact .nil evaluated ⟨rfl,(Property.readInhabits reading).typed strict,rfl,
      (asked.withHeap _).withStack _,
      Property.readKeeps Heap.sameShapesRefl contract reading,
      fun before => ⟨before,StaticType.noConfusion⟩⟩

theorem assignStoredSimulated (base : Expr) {key value : Expr} (place span : Span)
    {keyCode code : List Instruction} {middle : Draft} (grown : middle.Grows after)
    (keys : Simulates strict setting d ⟨keyCode,.string⟩ middle
      (key.eval (setting.evaluator setup)) (.as .string))
    (simulated : Simulates strict setting middle ⟨code,.object⟩ after
      (value.eval (setting.evaluator setup)) (.as .object)) :
    Simulates strict setting d ⟨.loadStore :: keyCode ++ code ++ [.call .storeSet],.object⟩ after
      ((Expr.assign (.indexed base key place) value span).eval (setting.evaluator setup)) id := by
  intro offset m s part sync room
  simp only [List.cons_append,List.append_assoc]
  unfold Expr.eval
  refine .push room rfl rfl ?_
  intro inside
  refine .append inside (keys _ (grown.partOf part) (sync.withStack _) inside) ?_
  rintro k next reached below ⟨_,keyLeaves⟩
  refine .append below (simulated _ part keyLeaves.sync below) ?_
  rintro r last final low ⟨_,leaves⟩
  have stack := leaves.stack
  rw [keyLeaves.stack] at stack
  refine .checked low (storeSetStep stack low) ?_ ?_
  · intro holds
    exact ⟨Value.fitsRaw (leaves.typed.inhabits holds).1,(keyLeaves.typed.inhabits holds).text⟩
  · rintro ⟨object,text⟩ _
    rw [leaves.sync.context]
    refine .nil rfl ⟨rfl,leaves.typed,rfl,?_,keyLeaves.shapes.trans leaves.shapes,?_⟩
    · exact (leaves.sync.withStack _).withStore
        fun holds => Store.setObjects (leaves.sync.objects holds) _ object
    · intro before
      exact leaves.solid (keyLeaves.solid before).1

theorem setterRefines (contract : setting.host.SettersKeep Heap.SameShapes) {index : Nat}
    {p q : Property} (table : setting.method.accessors[index]? = some q)
    (shared : q.sharesAccessors p = true) (sync : Sync strict setting.method d s m) {v : Value}
    {rest : List Value} (top : m.stack = v :: rest) :
    Refines strict setting offset [.callSetter index] (EvalM.callSetter setting.host p v) m s
      fun r next reached => r = ⟨.object,v⟩ ∧ reached.stack = rest ∧
        Sync strict setting.method d next reached ∧
        s.context.heap.SameShapes next.context.heap := by
  have stepped : (step setting offset (.callSetter index)).run m = _ := callSetterStep table top
  have evaluated := EvalM.callSetterRun setting.host p v s
  have shapes := p.writeKeeps Heap.sameShapesRefl contract v m.surroundings
  have around : m.surroundings = ⟨s.context.environment,s.context.heap⟩ := by
    rw [Machine.surroundings,sync.context]
  rw [Property.writeShared shared,around] at stepped
  rw [around] at shapes
  cases written : (p.write setting.host v).run ⟨s.context.environment,s.context.heap⟩ with
  | ok u after =>
    rw [written] at stepped evaluated shapes
    refine .done _ _ _ (by rw [runCons,stepped]; rfl) evaluated ⟨rfl,rfl,?_,shapes⟩
    exact (sync.withStack _).withSurroundings after
  | error e after =>
    rw [written] at stepped evaluated
    refine .failed e _ _ (by rw [runCons,stepped]) evaluated ?_
    exact ((sync.withStack rest).withSurroundings after).context

theorem writeSimulated (contract : setting.host.SettersKeep Heap.SameShapes)
    {name : String} {value : Expr} (place span : Span) {p : Property} {code : List Instruction}
    {middle : Draft} {index : Nat} (known : setup.lookup.resolveSetter d.queries name = some p)
    (simulated : Simulates strict setting (CompileM.asked d) ⟨code,.object⟩ middle
      (value.eval (setting.evaluator setup)) (.as .object))
    (recorded : (CompileM.recordAccessor p place).run middle = .ok index after) :
    Simulates strict setting d ⟨code ++ [.dup,.callSetter index],.object⟩ after
      ((Expr.assign (.property name place) value span).eval (setting.evaluator setup)) id := by
  intro offset m s part sync room
  unfold Expr.eval EvalM.assignProperty
  refine .evaluate (askRefines sync _) ?_
  simp only [Setting.evaluator]
  have grown := (recordGrows recorded).1
  obtain ⟨⟨q,held,shared⟩,accessors,more,rfl⟩ :=
    CompileM.recordAccessorOk (setup.lookup.setterFound known) recorded
  rw [known]
  refine .append room (simulated _ (grown.partOf part) sync.asked room) ?_
  rintro r next reached below ⟨_,leaves⟩
  -- the setter takes the copy, and the value below it is that of the assignment
  refine .push below (dupStep leaves.stack) rfl ?_
  intro _
  have synced := (leaves.sync.withAccessors accessors).withStack
    (r.convertTo .object :: reached.stack)
  refine .weaken (setterRefines contract (prefixAt part.accessors held) shared synced rfl) ?_
  rintro w last final ⟨rfl,stack,finalSync,shapes⟩
  exact ⟨rfl,leaves.typed,stack.trans leaves.stack,finalSync,leaves.shapes.trans shapes,
    leaves.solid⟩

theorem storeRefines (part : d.PartOf setting.method) {name : String} {b : Binding}
    (found : d.scope.find? name = some b) (sync : Sync strict setting.method d s m)
    {r : TypedValue} (typed : (r.convertTo b.entry.type).Typed strict b.entry.type)
    {rest : List Value} (top : m.stack = r.convertTo b.entry.type :: rest)
    (room : m.stack.length ≤ setting.limit) :
    Refines strict setting offset [.storeLocal b.slot] (EvalM.assignVariable name r) m s
      fun a next reached => a = ⟨b.entry.type,r.convertTo b.entry.type⟩ ∧ b.entry.type ≠ .void ∧
        reached.stack = rest ∧ Sync strict setting.method d next reached ∧
        next.context = s.context := by
  obtain ⟨w,there,held,old⟩ := sync.read found
  have evaluated : (EvalM.assignVariable name r).run s =
      .ok ⟨b.entry.type,r.convertTo b.entry.type⟩
        { s with table := setVariable name (r.convertTo b.entry.type) s.table } := by
    simp only [EvalM.assignVariable,EStateM.run_bind,EStateM.run_get,there,EStateM.run_set,
      EStateM.run_pure]
  refine .checked room (storeLocalStep (part.slot found) top)
    (fun holds => (typed.inhabits holds).1) ?_
  intro fits _
  exact .nil evaluated ⟨rfl,Value.fitsSolid fits,rfl,(sync.withStack rest).assign found typed,rfl⟩

theorem bindRefines {type : StaticType} (typed : type.initial.Typed strict type) {name : String}
    {span : Span} (part : (CompileM.bound d name type span).PartOf setting.method)
    (sync : Sync strict setting.method d s m) :
    ∃ next, (EvalM.bindVariable name type).run s = .ok () next ∧
      Sync strict setting.method (CompileM.bound d name type span) next m ∧
      next.context = s.context := by
  simp only [EvalM.bindVariable,EStateM.run_modify]
  unfold CompileM.bound Scope.bindOrReuse at part ⊢
  cases found : d.scope.find? name with
  | some b =>
    obtain ⟨w,there,held,old⟩ := sync.read found
    rw [there]
    exact ⟨s,rfl,sync,rfl⟩
  | none =>
    rw [sync.absent found]
    rw [found] at part
    exact ⟨_,rfl,sync.bindInitial part.locals typed,rfl⟩

theorem assignLocalRefines (sane : Sane strict setting.host setup.options) (form : AssignForm)
    (name : String) {value : Expr} (place span : Span) {b : Binding}
    (binds : (d.scope.bindOrReuse name setup.options.implicitType place).1 = b)
    {code : List Instruction}
    (grown : (CompileM.bound d name setup.options.implicitType place).Grows after)
    (simulated : Simulates strict setting (CompileM.bound d name setup.options.implicitType place)
      ⟨code,b.entry.type⟩ after (value.eval (setting.evaluator setup)) (.as b.entry.type))
    (offset : Nat) (part : after.PartOf setting.method) (sync : Sync strict setting.method d s m)
    (room : m.stack.length ≤ setting.limit) :
    Refines strict setting offset (CompileM.storedPiece b code form).code
      ((Expr.assign (.localRef name place) value span).eval (setting.evaluator setup)) m s
      fun r next reached => r.type = b.entry.type ∧ r.value.Typed strict r.type ∧
        Sync strict setting.method after next reached ∧
        s.context.heap.SameShapes next.context.heap ∧
        (d.Solid → after.Solid ∧ r.type ≠ .void) ∧ match form with
        | .statement => reached.stack = m.stack
        | .expression => reached.stack = r.value :: m.stack := by
  subst binds
  obtain ⟨bound,ran,synced,same⟩ :=
    bindRefines (Value.initialTyped sane.implicit) (grown.partOf part) sync
  -- the value may bind more names, but none that hides the slot of this one
  have found := Scope.findGrown grown.locals
    (d.scope.bindOrReuseFind name setup.options.implicitType place)
  unfold Expr.eval
  refine .evaluate ran ?_
  cases form with
  | statement =>
    refine .append room (simulated _ part synced room) ?_
    rintro r next reached below ⟨_,leaves⟩
    refine .weaken (storeRefines part found leaves.sync leaves.typed leaves.stack below) ?_
    rintro w last final ⟨rfl,typed,stack,finalSync,context⟩
    rw [context,← same]
    exact ⟨rfl,leaves.typed,finalSync,leaves.shapes,
      fun before => ⟨(leaves.solid (before.bound typed)).1,typed⟩,stack⟩
  | expression =>
    refine .append room (simulated _ part synced room) ?_
    rintro r next reached below ⟨_,leaves⟩
    refine .push below (dupStep leaves.stack) rfl ?_
    intro inside
    refine .weaken (storeRefines part found (leaves.sync.withStack _) leaves.typed rfl inside) ?_
    rintro w last final ⟨rfl,typed,stack,finalSync,context⟩
    rw [context,← same]
    exact ⟨rfl,leaves.typed,finalSync,leaves.shapes,
      fun before => ⟨(leaves.solid (before.bound typed)).1,typed⟩,stack.trans leaves.stack⟩

def ItemsSimulated (strict : Prop) (setting : Setting) (setup : CompileSetup) (d : Draft)
    (code : List Instruction) (after : Draft) (element : StaticType) (index : Nat)
    (items : List Expr) : Prop :=
  ∀ (offset : Nat) ⦃m : Machine⦄ ⦃s : EvalState⦄ ⦃id : ArrayId⦄ ⦃cell : ArrayCell⦄
    ⦃rest : List Value⦄, after.PartOf setting.method → Sync strict setting.method d s m →
    m.stack.length ≤ setting.limit → m.stack = .array id :: rest →
    s.context.heap.cell? id = some cell → cell.element = element →
    index + items.length = cell.items.size → cell.items.size ≤ CompileM.initializerLimit →
    Refines strict setting offset code
      (Expr.evalItems (setting.evaluator setup) id element index items) m s
      fun _ next reached => reached.stack = m.stack ∧
        Sync strict setting.method after next reached ∧
        s.context.heap.SameShapes next.context.heap ∧ (d.Solid → after.Solid)

theorem countExact {n : Nat} (few : n ≤ CompileM.initializerLimit) :
    (Int32.ofNat n).toInt = n := by
  unfold CompileM.initializerLimit at few
  exact Int32.toInt_ofNat_of_lt (by omega)

theorem itemsNilSimulated (element : StaticType) (index : Nat) :
    ItemsSimulated strict setting setup d [] d element index [] := by
  intro offset m s id cell rest part sync room top known same count few
  unfold Expr.evalItems
  exact .nil rfl ⟨rfl,sync,Heap.sameShapesRefl _,fun before => before⟩

theorem itemsConsSimulated {element : StaticType} {index : Nat} {item : Expr} {items : List Expr}
    {code more : List Instruction} {middle : Draft} (grown : middle.Grows after)
    (simulated : Simulates strict setting d ⟨code,element⟩ middle
      (item.eval (setting.evaluator setup)) (.as element))
    (others : ItemsSimulated strict setting setup middle more after element (index + 1) items) :
    ItemsSimulated strict setting setup d
      (.dup :: .pushInt (Int32.ofNat index) :: code ++ .storeElement :: more) after element index
      (item :: items) := by
  intro offset m s id cell rest part sync room top known same count few
  have below : index < cell.items.size := by rw [List.length_cons] at count; omega
  have exactIndex := countExact (Nat.le_of_lt (Nat.lt_of_lt_of_le below few))
  simp only [List.cons_append]
  unfold Expr.evalItems
  refine .push room (dupStep top) rfl ?_
  intro inside
  refine .push inside rfl rfl ?_
  intro deep
  refine .append deep (simulated _ (grown.partOf part) ((sync.withStack _).withStack _) deep) ?_
  rintro r next reached low ⟨_,leaves⟩
  -- whatever the initializer did, the array has the element type and length it was made with
  obtain ⟨later,there,type,size⟩ := leaves.shapes id cell known
  have held : reached.context.heap.cell? id = some later := by
    rw [leaves.sync.context]
    exact there
  have stored : (EvalM.storeItem id index (r.convertTo element)).run next = .ok ()
      { next with context := { next.context with
        heap := next.context.heap.setItem id index (r.convertTo element) } } := rfl
  obtain ⟨last,still,lastType,lastSize⟩ := Heap.sameShapesSetItem next.context.heap id index
    (r.convertTo element) id later there
  refine .evaluate stored ?_
  refine .checked low (storeElementStep exactIndex held (by rw [size]; exact below) leaves.stack)
    (fun holds => by rw [type,same]; exact (leaves.typed.inhabits holds).1) ?_
  intro fits final
  rw [leaves.sync.context]
  have synced := (leaves.sync.withStack m.stack).withHeap
    (next.context.heap.setItem id index (r.convertTo element))
  refine .weaken (others _ part synced final top still
    (lastType.trans (type.trans same)) ?_ ?_) ?_
  · rw [lastSize,size,← count,List.length_cons]
    omega
  · rw [lastSize,size]
    exact few
  · rintro u ending machine ⟨stack,finalSync,shapes,solid⟩
    exact ⟨stack,finalSync,(leaves.shapes.trans (Heap.sameShapesSetItem _ _ _ _)).trans shapes,
      fun before => solid (leaves.solid before).1⟩

theorem arrayOfSimulated {name : String} {items : List Expr} (span : Span) {element : StaticType}
    {code : List Instruction} (known : StaticType.ofName? name = some element)
    (few : items.length ≤ CompileM.initializerLimit)
    (filled : ItemsSimulated strict setting setup d code after element 0 items) :
    Simulates strict setting d
      ⟨.pushInt (Int32.ofNat items.length) :: .newArray element :: code,.array element⟩ after
      ((Expr.arrayOf name items span).eval (setting.evaluator setup)) id := by
  rintro offset ⟨locals,stack,context⟩ s part sync room
  obtain rfl : context = s.context := sync.context
  have named : (EvalM.elementType name).run s = .ok element s := by
    unfold EvalM.elementType
    rw [known]
    rfl
  have fresh := s.context.heap.cellAlloc ⟨element,Array.replicate items.length element.initial⟩
    s.context.heap.size
  rw [if_pos rfl] at fresh
  unfold Expr.eval
  refine .evaluate named (.evaluate rfl ?_)
  refine .push room rfl rfl ?_
  intro inside
  refine .cons inside (newArrayStep (countExact few) rfl inside) ?_
  intro below
  have synced := (sync.withStack (.array s.context.heap.size :: stack)).withHeap
    (s.context.heap.alloc ⟨element,Array.replicate items.length element.initial⟩).2
  refine .andThen (filled _ part synced below rfl fresh rfl ?_ ?_) ?_
  · simp
  · simpa using few
  · rintro u next reached ⟨top,finalSync,shapes,solid⟩
    exact ⟨_,_,rfl,rfl,(Value.arrayInhabits _ element).typed strict,top,finalSync,
      (Heap.withinAlloc _ _).sameShapes.trans shapes,
      fun before => ⟨solid before,StaticType.noConfusion⟩⟩

/-- What the code of a part does. The assignment to a local leaves nothing behind as a
statement, and as every other part but the items of an array it leaves its value. -/
def Part.Simulated (strict : Prop) (setting : Setting) (setup : CompileSetup) (d : Draft)
    (piece : Piece) (after : Draft) : Part → Prop
  | .value e => Simulates strict setting d piece after (e.eval (setting.evaluator setup)) id
  | .converted wanted e =>
    Simulates strict setting d piece after (e.eval (setting.evaluator setup)) (.as wanted)
  | .items element index exprs =>
    ItemsSimulated strict setting setup d piece.code after element index exprs
  | .assignment .statement (.localRef name place) e span =>
    ∀ (offset : Nat) ⦃m : Machine⦄ ⦃s : EvalState⦄, after.PartOf setting.method →
      Sync strict setting.method d s m → m.stack.length ≤ setting.limit →
      Refines strict setting offset piece.code
        ((Expr.assign (.localRef name place) e span).eval (setting.evaluator setup)) m s
        fun _ next reached => reached.stack = m.stack ∧
          Sync strict setting.method after next reached ∧ (d.Solid → after.Solid)
  | .assignment _ target e span =>
    Simulates strict setting d piece after
      ((Expr.assign target e span).eval (setting.evaluator setup)) id

theorem assignLocalSimulated (sane : Sane strict setting.host setup.options) (form : AssignForm)
    (name : String) {value : Expr} (place span : Span) {b : Binding}
    (binds : (d.scope.bindOrReuse name setup.options.implicitType place).1 = b)
    {code : List Instruction}
    (grown : (CompileM.bound d name setup.options.implicitType place).Grows after)
    (simulated : Simulates strict setting (CompileM.bound d name setup.options.implicitType place)
      ⟨code,b.entry.type⟩ after (value.eval (setting.evaluator setup)) (.as b.entry.type)) :
    (Part.assignment form (.localRef name place) value span).Simulated strict setting setup d
      (CompileM.storedPiece b code form) after := by
  cases form with
  | statement =>
    intro offset m s part sync room
    refine .weaken (assignLocalRefines sane .statement name place span binds grown simulated offset
      part sync room) ?_
    rintro r next reached ⟨type,typed,synced,shapes,solid,stack⟩
    exact ⟨stack,synced,fun before => (solid before).1⟩
  | expression =>
    intro offset m s part sync room
    refine .weaken (assignLocalRefines sane .expression name place span binds grown simulated offset
      part sync room) ?_
    rintro r next reached ⟨type,typed,synced,shapes,solid,stack⟩
    exact ⟨type,typed,stack,synced,shapes,solid⟩

theorem Coded.simulates (sane : Sane strict setting.host setup.options) {part : Part}
    {piece : Piece} (coded : Coded setup part d piece after) :
    part.Simulated strict setting setup d piece after := by
  induction coded with
  | constant c span => exact constantSimulated c span
  | null span => exact nullSimulated span
  | localRef span found => exact localSimulated span found
  | argument index span => exact argumentSimulated index span
  | indexed base span keys ih => exact indexedSimulated base span ih
  | unread span unknown =>
    unfold Part.Simulated Expr.eval
    exact unknownSimulated unknown rfl
  | read span known recorded => exact readSimulated sane.contract.getters known recorded
  | arrayOf span known few filled ih => exact arrayOfSimulated span known few ih
  | @assign d piece after target value span assigned ih =>
    cases assigned <;> exact ih
  | converted made coerces ih => exact ih.converted coerces
  | noItems element index => exact itemsNilSimulated element index
  | moreItems first rest ih others => exact itemsConsSimulated rest.grows ih others
  | assignLocal form place span made ih =>
    exact assignLocalSimulated sane form _ place span rfl made.grows ih
  | assignStored form base place span keys made keyIh ih =>
    cases form <;> exact assignStoredSimulated base place span made.grows keyIh ih
  | unwritten form place value span unknown =>
    cases form <;>
      · unfold Part.Simulated Expr.eval
        exact unknownSimulated unknown rfl
  | write form place span known made recorded ih =>
    cases form <;> exact writeSimulated sane.contract.setters place span known ih recorded

def Settles (strict : Prop) (setting : Setting) (d : Draft) (m : Machine) :
    Unit → EvalState → Machine → Prop :=
  fun _ next reached =>
    reached.stack = m.stack ∧ Sync strict setting.method d next reached ∧ d.Solid

theorem Simulates.settles {piece : Piece} {x : EvalM TypedValue}
    (simulates : Simulates strict setting d piece after x id) (part : after.PartOf setting.method)
    (sync : Sync strict setting.method d s m) (room : m.stack.length ≤ setting.limit)
    (solid : d.Solid) :
    Refines strict setting offset piece.discarded (x >>= fun _ => pure ()) m s
      (Settles strict setting after m) := by
  have simulated := simulates offset part sync room
  unfold Piece.discarded
  split
  · rename_i void
    -- nothing would be popped, but no expression has the type void
    refine .andThen simulated ?_
    rintro r next reached ⟨type,leaves⟩
    cases same : piece.type with
    | void => exact absurd (type.trans same) (leaves.solid solid).2
    | string | decimal | long | int | bool | object | array =>
      rw [same] at void
      cases void
  · refine .append room simulated ?_
    rintro r next reached below ⟨type,leaves⟩
    refine .cons below (popStep leaves.stack) ?_
    intro _
    exact .nil rfl ⟨rfl,leaves.sync.withStack _,(leaves.solid solid).1⟩

theorem declareSettles {name : String} {init : Expr} {span : Span} {piece : Piece}
    {middle : Draft} (free : middle.scope.find? name = none)
    (simulated : Simulates strict setting d piece middle
      (init.eval (setting.evaluator setup)) id)
    (part : Draft.PartOf { middle with scope := (middle.scope.bind name piece.type span).2 }
      setting.method)
    (sync : Sync strict setting.method d s m) (room : m.stack.length ≤ setting.limit)
    (solid : d.Solid) :
    Refines strict setting offset (piece.code ++ [.storeLocal middle.scope.size])
      ((Stmt.declare name init span).eval (setting.evaluator setup)) m s
      (Settles strict setting
        { middle with scope := (middle.scope.bind name piece.type span).2 } m) := by
  have grown : middle.Grows { middle with scope := (middle.scope.bind name piece.type span).2 } :=
    ⟨List.prefix_append _ _,List.prefix_refl _⟩
  have slotted : setting.method.locals[middle.scope.size]? = some ⟨name,piece.type,span⟩ :=
    prefixAt part.locals (Scope.slotBind ..)
  refine .append room (simulated offset (grown.partOf part) sync room) ?_
  rintro ⟨type,v⟩ next reached below ⟨same,leaves⟩
  obtain rfl : type = piece.type := same
  have declared : (EvalM.declareVariable name ⟨piece.type,v⟩).run next = .ok ()
      { next with table := next.table ++ [⟨name,piece.type,v⟩] } := by
    simp only [EvalM.declareVariable,EStateM.run_bind,EStateM.run_get,leaves.sync.absent free,
      EStateM.run_set]
  refine .checked below (storeLocalStep slotted leaves.stack)
    (fun holds => (leaves.typed.inhabits holds).1) ?_
  intro fits _
  exact .nil declared ⟨rfl,((leaves.sync.withStack m.stack).bind part.locals leaves.typed).1,
    (leaves.solid solid).1.bind (Value.fitsSolid fits)⟩

theorem StmtCoded.settles (sane : Sane strict setting.host setup.options) {stmt : Stmt}
    {code : List Instruction} (coded : StmtCoded setup stmt d code after)
    (part : after.PartOf setting.method) (sync : Sync strict setting.method d s m)
    (room : m.stack.length ≤ setting.limit) (solid : d.Solid) :
    Refines strict setting offset code (stmt.eval (setting.evaluator setup)) m s
      (Settles strict setting after m) := by
  cases coded with
  | declare span made free => exact declareSettles free (made.simulates sane) part sync room solid
  | assign span made =>
    have simulated := made.simulates sane
    cases made with
    | assignLocal =>
      refine .andThen (simulated offset part sync room) ?_
      rintro r next reached ⟨stack,synced,kept⟩
      exact ⟨(),next,rfl,stack,synced,kept solid⟩
    | assignStored | unwritten | write => exact Simulates.settles simulated part sync room solid
  | evaluate span made => exact Simulates.settles (made.simulates sane) part sync room solid

theorem Lowers.settles (sane : Sane strict setting.host setup.options) {body : List Stmt}
    {code : List Instruction} (lowers : Lowers setup body d code after)
    (part : after.PartOf setting.method) (sync : Sync strict setting.method d s m)
    (room : m.stack.length ≤ setting.limit) (solid : d.Solid) :
    Refines strict setting offset code (evalBody (setting.evaluator setup) body) m s
      (Settles strict setting after m) := by
  induction lowers generalizing offset m s with
  | nil d => exact .nil rfl ⟨rfl,sync,solid⟩
  | cons first others ih =>
    refine .append room
      ((Stmt.codes first).settles sane (others.grows.partOf part) sync room solid) ?_
    rintro u next reached below ⟨stack,synced,kept⟩
    refine .weaken (ih part synced below kept) ?_
    rintro u last final ⟨lastStack,lastSync,lastKept⟩
    exact ⟨lastStack.trans stack,lastSync,lastKept⟩

end Expressions

theorem methodRefines {strict : Prop} {host : Host} {setup : CompileSetup}
    (sane : Sane strict host setup.options) {method : Method} {queries : Nat}
    {compiled : CompiledMethod} (ok : (compileMethod setup method queries).1 = .ok compiled)
    (limit : Nat) (arguments : List Value) {context : Context}
    (objects : strict → context.store.HoldsObjects) :
    Refines strict (compiled.setting host limit context) 0 compiled.listing.instructions
      (evalBody ⟨host,setup,context.heap.size⟩ method.body) (compiled.start arguments context)
      ⟨[],(compiled.start arguments context).context,queries⟩
      fun _ next reached => reached.stack = [] ∧ reached.context = next.context ∧
        Tables strict compiled.locals next.table reached.locals := by
  obtain ⟨draft,lowers,locals,accessors⟩ := methodLowers ok
  have part : draft.PartOf compiled :=
    ⟨locals ▸ List.prefix_refl _,accessors ▸ List.prefix_refl _⟩
  have sync : Sync strict compiled { queries := queries }
      ⟨[],(compiled.start arguments context).context,queries⟩ (compiled.start arguments context) :=
    ⟨⟨[],.nil,rfl⟩,rfl,rfl,objects⟩
  have solid : Draft.Solid { queries := queries } := by
    intro entry member
    cases member
  refine .weaken (lowers.settles sane part sync (Nat.zero_le _) solid) ?_
  rintro u next reached ⟨stack,synced,_⟩
  exact ⟨stack,synced.context,synced.allBound locals⟩

end ScriptMachine
