import ScriptMachine.Proofs.CoercionRoute
import ScriptMachine.Proofs.SideBySide
import ScriptMachine.Proofs.StackFrame
import ScriptMachine.Proofs.StackNeed
import ScriptMachine.Proofs.StoreKeys
/-! A value on its way through the store. It is put there as an object and converted
when it is read, and a local that it is assigned to then holds what it would hold had
the value been assigned to it at once. Nothing but the key is different afterwards. -/
namespace ScriptMachine

namespace CompileM
variable {d after : Draft} {piece : Piece}

theorem convertedRun {wanted : StaticType} {c : Coercion} {value : CompileM Piece}
    (made : value.run d = .ok piece after) (found : Coercion.find? piece.type wanted = some c)
    (span : Span) : (converted wanted span value).run d = .ok (piece.code ++ c.code) after := by
  have coerced : (coerce piece.type wanted span).run after = .ok c.code after := by
    rw [coerceRun,found]
  unfold converted
  rw [runBindOk made,runBindOk coerced]
  rfl

theorem bindOrReuseRun {name : String} {b : Binding} (found : d.scope.find? name = some b)
    (type : StaticType) (span : Span) : (bindOrReuse name type span).run d = .ok b d := by
  have ran : (bindOrReuse name type span).run d =
      .ok (d.scope.bindOrReuse name type span).1
        { d with scope := (d.scope.bindOrReuse name type span).2 } := rfl
  rw [ran]
  simp only [Scope.bindOrReuse,found]

end CompileM

/-- The conversions of a value on its way to a place of the type wanted: to an object and
from there, and at once. -/
structure Routes (type wanted : StaticType) where
  boxing : List Instruction
  forcing : List Instruction
  conversion : List Instruction
  boxes : Coerces type .object boxing
  forces : Coerces .object wanted forcing
  converts : Coerces type wanted conversion

namespace Routes
variable {type wanted : StaticType}

def throughStore (routes : Routes type wanted) (key again : String) (code : List Instruction)
    (slot : Nat) : List Instruction :=
  (.loadStore :: .pushConst (.string key) :: (code ++ (routes.boxing ++ [.call .storeSet,.pop]))) ++
    .loadStore :: .pushConst (.string again) :: .call .storeGet ::
      (routes.forcing ++ [.storeLocal slot])

def atOnce (routes : Routes type wanted) (code : List Instruction) (slot : Nat) :
    List Instruction :=
  code ++ (routes.conversion ++ [.storeLocal slot])

end Routes

def Expr.AtKey (key : String) (e : Expr) : Prop :=
  ∃ base place span, e = .indexed base (.constant (.string key) place) span

section Compiling
variable {setup : CompileSetup} {d after : Draft} {piece : Piece} {e access : Expr}
variable {c : Coercion} {key : String}

theorem keyRun (setup : CompileSetup) (key : String) (place : Span) (d : Draft) :
    (CompileM.converted .string (Expr.constant (.string key) place).span
      ((Expr.constant (.string key) place).compile setup)).run d =
      .ok [.pushConst (.string key)] d := by
  have made : ((Expr.constant (.string key) place).compile setup).run d =
      .ok ⟨[.pushConst (.string key)],.string⟩ d := by
    unfold Expr.compile
    rfl
  exact CompileM.convertedRun made (c := ⟨.identity,.string⟩) rfl _

theorem readKeyRun (setup : CompileSetup) (reads : access.AtKey key) (d : Draft) :
    (access.compile setup).run d =
      .ok ⟨[.loadStore,.pushConst (.string key),.call .storeGet],.object⟩ d := by
  obtain ⟨base,place,span,rfl⟩ := reads
  unfold Expr.compile
  rw [runBindOk (keyRun setup key place d)]
  rfl

theorem writeKeyRun (writes : access.AtKey key) (made : (e.compile setup).run d = .ok piece after)
    (found : Coercion.find? piece.type .object = some c) (span : Span) :
    ((Stmt.assign access e span).compile setup).run d =
      .ok (.loadStore :: .pushConst (.string key) ::
        (piece.code ++ (c.code ++ [.call .storeSet,.pop]))) after := by
  obtain ⟨base,place,other,rfl⟩ := writes
  have stored : (Expr.compileAssignment setup .statement
      (.indexed base (.constant (.string key) place) other) e).run d =
        .ok ⟨.loadStore :: [.pushConst (.string key)] ++ (piece.code ++ c.code) ++
          [.call .storeSet],.object⟩ after := by
    change (CompileM.assignStored _ e.span _ (e.compile setup)).run d = _
    unfold CompileM.assignStored
    rw [runBindOk (keyRun setup key place d),runBindOk (CompileM.convertedRun made found e.span)]
    rfl
  unfold Stmt.compile
  rw [runBindOk stored]
  simp [Piece.discarded,StaticType.isVoid]

theorem assignLocalRun {name : String} {b : Binding} (bound : d.scope.find? name = some b)
    (made : (e.compile setup).run d = .ok piece after)
    (found : Coercion.find? piece.type b.entry.type = some c) (place span : Span) :
    ((Stmt.assign (.localRef name place) e span).compile setup).run d =
      .ok (piece.code ++ (c.code ++ [.storeLocal b.slot])) after := by
  have assigned : (Expr.compileAssignment setup .statement (.localRef name place) e).run d =
      .ok ⟨piece.code ++ c.code ++ [.storeLocal b.slot],.void⟩ after := by
    change (CompileM.assignLocal setup.options .statement name place e.span
      (e.compile setup)).run d = _
    unfold CompileM.assignLocal
    rw [runBindOk (CompileM.bindOrReuseRun bound _ place),
      runBindOk (CompileM.convertedRun made found e.span)]
    rfl
  unfold Stmt.compile
  rw [runBindOk assigned]
  simp [Piece.discarded,StaticType.isVoid]

theorem routesLower {name again : String} {b : Binding} {source : Expr} (typed : piece.type ≠ .void)
    (made : (e.compile setup).run d = .ok piece after) (known : d.scope.find? name = some b)
    (wanted : b.entry.type ≠ .void) (plain : b.entry.type.isArray = false)
    (writes : access.AtKey key) (reads : source.AtKey again) (q r s t u : Span) :
    ∃ routes : Routes piece.type b.entry.type,
      Lowers setup [.assign access e q,.assign (.localRef name r) source s] d
        (routes.throughStore key again piece.code b.slot) after ∧
      Lowers setup [.assign (.localRef name t) e u] d (routes.atOnce piece.code b.slot) after := by
  have later := Scope.findGrown (e.codes made).grows.locals known
  obtain ⟨boxing,boxes⟩ := Coercion.findPlain .object typed (by decide) rfl
  obtain ⟨forcing,forces⟩ := @Coercion.findPlain .object b.entry.type (by decide) wanted plain
  obtain ⟨conversion,converts⟩ := Coercion.findPlain b.entry.type typed wanted plain
  refine ⟨⟨boxing.code,forcing.code,conversion.code,Coercion.coerces boxes,
    Coercion.coerces forces,Coercion.coerces converts⟩,?_,?_⟩
  · have read := assignLocalRun later (readKeyRun setup reads after) forces r s
    have lowers := Lowers.cons (writeKeyRun writes made boxes q) (.cons read (.nil after))
    rwa [List.append_nil] at lowers
  · have lowers := Lowers.cons (assignLocalRun known made converts t u) (.nil after)
    rwa [List.append_nil] at lowers

end Compiling

theorem Tidy.runs {setting : Setting} {implicit : StaticType} (solid : implicit ≠ .void)
    {a c : Stage} {code : List Instruction} (flows : Flows setting.method implicit a code c)
    {offset : Nat} {m next : Machine} (tidy : Tidy (implicit = .string) setting.method a m)
    (ran : (runFrom setting offset code).run m = .ok () next) :
    Tidy (implicit = .string) setting.method c next := by
  induction flows generalizing offset m with
  | nil a =>
    cases ran
    exact tidy
  | adjust adjusts rest ih => exact ih (tidy.adjusting solid adjusts) ran
  | step does rest ih =>
    obtain ⟨middle,stepped,later⟩ := runConsOk ran
    exact ih (tidy.stepping does stepped) later

section Running
variable {setting : Setting} {implicit type wanted : StaticType} {n k offset slot : Nat}
variable {kinds : List Kind} {code conversion : List Instruction} {m next final : Machine}
variable {key : String} {v : Value}

theorem Tidy.inhabits (tidy : Tidy (implicit = .string) setting.method ⟨n,.value type :: kinds⟩ m)
    (other : implicit ≠ .string) {rest : List Value} (top : m.stack = v :: rest) :
    v.Inhabits type := by
  have stacked := tidy.stack
  rw [top] at stacked
  cases stacked with
  | value held below => exact ⟨held.1,fun text null => other (held.2 text null)⟩

theorem keyPushed (room : m.stack.length ≤ setting.limit)
    (ran : (runFrom setting offset (.loadStore :: .pushConst (.string key) :: code)).run m =
      .ok () final) :
    (Value.string key :: .store :: m.stack).length ≤ setting.limit ∧
      (runFrom setting (offset + 1 + 1) code).run
        (m.withStack (.string key :: .store :: m.stack)) = .ok () final := by
  obtain ⟨_,loaded,ran⟩ := runConsOk ran
  have above := stepRoom room loaded
  cases stepMoves loaded
  obtain ⟨_,pushed,ran⟩ := runConsOk ran
  have higher := stepRoom above pushed
  cases stepMoves pushed
  exact ⟨higher,ran⟩

theorem storesValue (solid : implicit ≠ .void) (other : implicit ≠ .string)
    (yields : ∀ stack, Flows setting.method implicit ⟨n,stack⟩ code ⟨k,.value type :: stack⟩)
    (boxes : Coerces type .object conversion)
    (tidy : Tidy (implicit = .string) setting.method ⟨n,kinds⟩ m)
    (room : m.stack.length ≤ setting.limit) (place : Nat)
    (ran : (runFrom setting offset (.loadStore :: .pushConst (.string key) ::
      (code ++ (conversion ++ [.call .storeSet,.pop])))).run m = .ok () final) :
    ∃ v next, (runFrom setting place code).run m = .ok () next ∧ next.stack = v :: m.stack ∧
      v.Inhabits type ∧
      final = (next.withStack m.stack).withStore (next.context.store.set key v.asObject) := by
  obtain ⟨higher,ran⟩ := keyPushed room ran
  obtain ⟨middle,evaluated,ran⟩ := runAppendOk ran
  have lower : m.stack.length ≤ (Value.string key :: .store :: m.stack).length := by
    simp only [List.length_cons]
    omega
  -- the store and the key lie below, so that the code does as it would without them
  obtain ⟨left,single,top,alone⟩ := runLowered (yields []) place
    (rfl : ([] : List Value).length = 0) lower rfl higher evaluated
  obtain ⟨v,rfl⟩ := List.length_eq_one_iff.mp single
  have typed : v.Inhabits type := (tidy.runs solid (yields kinds) alone).inhabits other rfl
  have within := runOkRoom higher evaluated
  obtain ⟨_,converted,ran⟩ := runAppendOk ran
  cases (boxes.replaces (r := ⟨type,v⟩) typed setting _ middle _ top within).symm.trans converted
  obtain ⟨_,stored,ran⟩ := runConsOk ran
  cases stepMoves stored with
  | storeSet found object =>
    cases found
    obtain ⟨_,popped,ran⟩ := runConsOk ran
    cases stepMoves popped with
    | pop operand found =>
      cases found
      cases ran
      rw [TypedValue.convertToObject typed]
      exact ⟨v,_,alone,rfl,typed,rfl⟩

theorem readsValue (held : (m.context.store.get key).Inhabits .object)
    (forces : Coerces .object wanted conversion) (room : m.stack.length ≤ setting.limit)
    (ran : (runFrom setting offset (.loadStore :: .pushConst (.string key) :: .call .storeGet ::
      (conversion ++ [.storeLocal slot]))).run m = .ok () final) :
    final = m.withLocal slot
      ((⟨.object,m.context.store.get key⟩ : TypedValue).convertTo wanted) := by
  obtain ⟨higher,ran⟩ := keyPushed room ran
  obtain ⟨_,read,ran⟩ := runConsOk ran
  have within := stepRoom higher read
  cases stepMoves read with
  | storeGet found =>
    cases found
    obtain ⟨_,converted,ran⟩ := runAppendOk ran
    cases (forces.replaces (r := ⟨.object,m.context.store.get key⟩) held setting _ _ _ rfl
      within).symm.trans converted
    obtain ⟨_,assigned,ran⟩ := runConsOk ran
    cases stepMoves assigned with
    | storeLocal slot found slotted fits =>
      cases found
      cases ran
      rfl

theorem assignsValue (ran : (runFrom setting offset code).run m = .ok () next)
    (top : next.stack = v :: m.stack) (typed : v.Inhabits type) {entry : Local}
    (converts : Coerces type entry.type conversion) (room : m.stack.length ≤ setting.limit)
    (slotted : setting.method.locals[slot]? = some entry) :
    (runFrom setting offset (code ++ (conversion ++ [.storeLocal slot]))).run m =
      .ok () ((next.withStack m.stack).withLocal slot
        ((⟨type,v⟩ : TypedValue).convertTo entry.type)) := by
  have within := runOkRoom room ran
  have fits := (TypedValue.convertToInhabits (r := ⟨type,v⟩) typed converts).1
  rw [runAppend,ran]
  simp only [runAppend,converts.replaces (r := ⟨type,v⟩) typed setting _ next _ top within]
  rw [runCons,(storeLocalStep slotted rfl).passes fits]
  rfl

theorem roundTrip (solid : implicit ≠ .void) (other : implicit ≠ .string)
    (yields : ∀ stack, Flows setting.method implicit ⟨n,stack⟩ code ⟨k,.value type :: stack⟩)
    {entry : Local} (routes : Routes type entry.type) (target : entry.type ≠ .void)
    (plain : entry.type.isArray = false) {again : String} (same : Text.fold key = Text.fold again)
    (tidy : Tidy (implicit = .string) setting.method ⟨n,kinds⟩ m)
    (room : m.stack.length ≤ setting.limit)
    (slotted : setting.method.locals[slot]? = some entry)
    (ran : (runFrom setting offset (routes.throughStore key again code slot)).run m =
      .ok () final) :
    ∃ v next, (runFrom setting offset code).run m = .ok () next ∧ next.stack = v :: m.stack ∧
      (runFrom setting offset (routes.atOnce code slot)).run m =
        .ok () ((next.withStack m.stack).withLocal slot (v.convertTo entry.type)) ∧
      final = ((next.withStack m.stack).withLocal slot (v.convertTo entry.type)).withStore
        (next.context.store.set key v.asObject) := by
  obtain ⟨middle,written,ran⟩ := runAppendOk ran
  obtain ⟨v,next,evaluated,top,typed,rfl⟩ :=
    storesValue solid other yields routes.boxes tidy room offset written
  have found : (next.context.store.set key v.asObject).get again = v.asObject := by
    rw [Store.get,Store.getSet,if_pos same]
    rfl
  have held : ((next.context.store.set key v.asObject).get again).Inhabits .object := by
    rw [found]
    exact v.asObjectInhabits
  have read : final = ((next.withStack m.stack).withStore
      (next.context.store.set key v.asObject)).withLocal slot
        ((⟨.object,(next.context.store.set key v.asObject).get again⟩ : TypedValue).convertTo
          entry.type) := readsValue held routes.forces room ran
  have assigned := assignsValue evaluated top typed routes.converts room slotted
  -- the value converts alike from its own type, from an object and without a type
  have through := TypedValue.convertThroughObject (r := ⟨type,v⟩) typed target plain
  rw [TypedValue.convertToObject (r := ⟨type,v⟩) typed] at through
  have value : (⟨type,v⟩ : TypedValue).convertTo entry.type = v.convertTo entry.type :=
    TypedValue.convertToPlain (r := ⟨type,v⟩) typed target plain
  rw [value] at assigned
  rw [found,through,value] at read
  exact ⟨v,next,evaluated,top,assigned,read⟩

end Running

theorem findLocalFromIndex {slot : Nat} {locals : List Local} {name : String} {b : Binding}
    (found : findLocalFrom slot locals name = some b) :
    b.slot = slot + (locals.map (·.name)).findIdx (· == name) := by
  induction locals generalizing slot with
  | nil => cases found
  | cons entry rest ih =>
    unfold findLocalFrom at found
    split at found
    · rename_i same
      cases found
      simp [List.findIdx_cons,same]
    · rename_i different
      have later := ih found
      simp only [List.map_cons,List.findIdx_cons,beq_eq_false_iff_ne.mpr different,cond_false]
      omega

theorem Frame.getFound {locals : List Local} {name : String} {b : Binding}
    (found : findLocal? locals name = some b) (values stack : List Value) :
    (⟨locals.map (·.name),values,stack⟩ : Frame).get? name = values[b.slot]? := by
  have index := findLocalFromIndex found
  rw [Nat.zero_add] at index
  rw [get?,index]

def Method.followedBy (method : Method) (more : List Stmt) : Method :=
  { method with body := method.body ++ more }

structure Draft.Finished (d : Draft) (method : CompiledMethod) : Prop where
  locals : method.locals = d.scope.locals
  accessors : method.accessors = d.accessors

theorem Draft.Finished.partOf {d : Draft} {method : CompiledMethod} (finished : d.Finished method) :
    d.PartOf method :=
  ⟨finished.locals ▸ List.prefix_refl _,finished.accessors ▸ List.prefix_refl _⟩

section Methods
variable {setup : CompileSetup} {method : Method} {queries : Nat} {compiled other : CompiledMethod}
variable {host : Host} {limit : Nat} {arguments : List Value} {context : Context}
variable {d after : Draft} {front rest : List Instruction} {e : Expr} {piece : Piece}

theorem followedByCompiles {more : List Stmt}
    (begun : Lowers setup method.body { queries := queries } front d)
    (ends : Lowers setup more d rest after) :
    ∃ compiled, (compileMethod setup (method.followedBy more) queries).1 = .ok compiled ∧
      compiled.listing.instructions = front ++ rest ∧ after.Finished compiled := by
  have whole : Lowers setup (method.followedBy more).body { queries := queries } (front ++ rest)
      after := begun.append ends
  obtain ⟨compiled,ok,listed,locals,accessors⟩ := whole.compiles
  exact ⟨compiled,ok,listed,locals,accessors⟩

theorem evaluateLast {span : Span}
    (ok : (compileMethod setup (method.followedBy [.evaluate e span]) queries).1 = .ok compiled) :
    ∃ front d piece after, Lowers setup method.body { queries := queries } front d ∧
      (e.compile setup).run d = .ok piece after ∧
      compiled.listing.instructions = front ++ piece.discarded ∧ after.Finished compiled := by
  obtain ⟨after,lowers,locals,accessors⟩ := methodLowers ok
  change Lowers setup (method.body ++ [.evaluate e span]) _ _ after at lowers
  obtain ⟨front,d,rest,begun,ends,listed⟩ := lowers.split
  cases ends with
  | cons first others =>
    cases others
    obtain ⟨piece,middle,made,last⟩ := bindOk first
    cases last
    exact ⟨front,d,piece,after,begun,made,by rw [listed,List.append_nil],locals,accessors⟩

theorem executeOk {last : Context} {frame : Frame}
    (ok : (execute host limit compiled arguments).run context = .ok frame last) :
    ∃ m, (runFrom (compiled.setting host limit context) 0 compiled.listing.instructions).run
        (compiled.start arguments context) = .ok () m ∧
      frame = ⟨compiled.locals.map (·.name),m.locals,m.stack⟩ ∧ last = m.context := by
  rw [CompiledMethod.executeRun] at ok
  split at ok
  · rename_i u m ran
    cases ok
    exact ⟨m,ran,rfl,rfl⟩
  · cases ok

theorem Draft.Finished.runSame (finished : after.Finished compiled) (also : after.Finished other)
    (host : Host) (limit : Nat) (arguments : List Value) (context : Context)
    (code : List Instruction) :
    (runFrom (compiled.setting host limit context) 0 code).run (compiled.start arguments context) =
      (runFrom (other.setting host limit context) 0 code).run (other.start arguments context) := by
  have locals := finished.locals.trans also.locals.symm
  have accessors := finished.accessors.trans also.accessors.symm
  have started : compiled.start arguments context = other.start arguments context := by
    simp only [CompiledMethod.start,CompiledMethod.initialLocals,locals]
  rw [started,CompiledMethod.setting,runMethod (congrArg (List.map (·.type)) locals) accessors]
  rfl

theorem routesRun {name key again : String} {b : Binding} {final : Machine}
    (solid : setup.options.implicitType ≠ .void) (unset : setup.options.implicitType ≠ .string)
    (begun : Lowers setup method.body { queries := queries } front d)
    (made : (e.compile setup).run d = .ok piece after) (known : d.scope.find? name = some b)
    (wanted : b.entry.type ≠ .void) (plain : b.entry.type.isArray = false)
    (same : Text.fold key = Text.fold again) (finished : after.Finished compiled)
    (objects : context.store.HoldsObjects) (routes : Routes piece.type b.entry.type)
    (ran : (runFrom (compiled.setting host limit context) 0
      (front ++ routes.throughStore key again piece.code b.slot)).run
        (compiled.start arguments context) = .ok () final) :
    ∃ v rest next, (runFrom (compiled.setting host limit context) 0 (front ++ piece.code)).run
        (compiled.start arguments context) = .ok () next ∧ next.stack = v :: rest ∧
      b.slot < next.locals.length ∧
      (runFrom (compiled.setting host limit context) 0
        (front ++ routes.atOnce piece.code b.slot)).run (compiled.start arguments context) =
          .ok () ((next.withStack rest).withLocal b.slot (v.convertTo b.entry.type)) ∧
      final = ((next.withStack rest).withLocal b.slot (v.convertTo b.entry.type)).withStore
        (next.context.store.set key v.asObject) := by
  have part := finished.partOf
  obtain ⟨m,begins,ran⟩ := runAppendOk ran
  obtain ⟨kinds,flows⟩ := begun.flows [] ((e.codes made).grows.partOf part)
  have tidy := (startTidy compiled arguments objects _).runs solid flows begins
  obtain ⟨ready,slotted⟩ := slotReady (Scope.findGrown (e.codes made).grows.locals known) part
  obtain ⟨v,next,evaluated,top,assigned,last⟩ := roundTrip solid unset
    (fun stack => (e.codes made).flows stack part) routes wanted plain same tidy
    (runOkRoom (Nat.zero_le _) begins) slotted ran
  obtain ⟨_,there,_⟩ := (tidy.runs solid ((e.codes made).flows kinds part) evaluated).bound b.slot
    b.entry ready slotted
  refine ⟨v,m.stack,next,?_,top,(List.getElem?_eq_some_iff.mp there).1,?_,last⟩
  · rw [runAppend,begins]
    exact evaluated
  · rw [runAppend,begins]
    exact assigned

/-- The value is the one on top of the stack just before it is discarded. Assigned to a
local it is converted alike both ways; and under the key it stays as an object. -/
theorem storeIsTransparent {begins probe : CompiledMethod} {name : String} {b : Binding}
    {target source : Expr} {key again : String} (solid : setup.options.implicitType ≠ .void)
    (unset : setup.options.implicitType ≠ .string)
    (begun : (compileMethod setup method queries).1 = .ok begins)
    (bound : begins.local? name = some b) (plain : b.entry.type.isArray = false) {p : Span}
    (compiles : (compileMethod setup (method.followedBy [.evaluate e p]) queries).1 = .ok probe)
    (writes : target.AtKey key) (reads : source.AtKey again)
    (same : Text.fold key = Text.fold again) (q r s t u : Span) :
    ∃ stored direct,
      (compileMethod setup (method.followedBy
        [.assign target e q,.assign (.localRef name r) source s]) queries).1 = .ok stored ∧
      (compileMethod setup (method.followedBy [.assign (.localRef name t) e u]) queries).1 =
        .ok direct ∧
      ∀ (host : Host) (limit : Nat) (arguments : List Value) (context after : Context)
          (frame : Frame), context.store.HoldsObjects →
        (execute host limit stored arguments).run context = .ok frame after →
        ∃ (last : Context) (m : Machine) (v : Value),
          (execute host limit direct arguments).run context = .ok frame last ∧
          frame.get? name = some (v.convertTo b.entry.type) ∧
          probe.Reaches host limit arguments context (probe.listing.instructions.length - 1) m ∧
          m.stack.head? = some v ∧ m.context = last ∧
          after.environment = last.environment ∧ after.heap = last.heap ∧
          ∀ k, after.store.get? k =
            if Text.fold key = Text.fold k then some v.asObject else last.store.get? k := by
  obtain ⟨d,lowered,named,_⟩ := methodLowers begun
  obtain ⟨front,_,piece,after,began,made,listed,finished⟩ := evaluateLast compiles
  obtain ⟨rfl,rfl⟩ := lowered.unique began
  have known : d.scope.find? name = some b := by
    rw [Scope.find?,← named]
    exact bound
  have empty : ({ queries := queries } : Draft).Solid := by
    intro entry member
    cases member
  have firm := lowered.solid solid empty
  have typed := Expr.compiledSolid solid firm made
  have wanted := firm.found known
  obtain ⟨routes,through,once⟩ :=
    routesLower typed made known wanted plain writes reads q r s t u
  obtain ⟨stored,storedOk,storedCode,storedTables⟩ := followedByCompiles lowered through
  obtain ⟨direct,directOk,directCode,directTables⟩ := followedByCompiles lowered once
  refine ⟨stored,direct,storedOk,directOk,?_⟩
  intro host limit arguments context _ _ objects executed
  obtain ⟨final,ran,rfl,rfl⟩ := executeOk executed
  rw [storedCode] at ran
  obtain ⟨v,rest,next,evaluated,top,inside,assigned,rfl⟩ := routesRun solid unset lowered made known
    wanted plain same storedTables objects routes ran
  refine ⟨next.context,next,v,?_,?_,?_,?_,rfl,rfl,rfl,?_⟩
  · rw [direct.executeRun,directTables.runSame storedTables,directCode,assigned,
      directTables.locals,storedTables.locals]
    rfl
  · rw [storedTables.locals,Frame.getFound (Scope.findGrown (e.codes made).grows.locals known)]
    exact List.getElem?_set_self inside
  · rw [CompiledMethod.Reaches,← List.dropLast_eq_take,listed,Stmt.discardedPop typed,
      ← List.append_assoc,List.dropLast_concat,finished.runSame storedTables]
    exact evaluated
  · rw [top]
    rfl
  · intro k
    exact Store.getSet next.context.store key k v.asObject

end Methods

def declaresPrice : Method :=
  ⟨"main",[.declare "price" (.constant (.decimal ⟨false,99,2,by decide,by decide⟩) .start) .start],
    .start⟩

def listPrice : Decimal :=
  ⟨false,250,2,by decide,by decide⟩

def keyed (key : String) : Expr :=
  .indexed (.null .start) (.constant (.string key) .start) .start

theorem keyedAtKey (key : String) : (keyed key).AtKey key :=
  ⟨_,_,_,rfl⟩

theorem scaleKeptInStore :
    ((({} : CompileOptions).implicitType ≠ .void ∧ ({} : CompileOptions).implicitType ≠ .string) ∧
      Text.fold "Price" = Text.fold "pRICE" ∧ ({} : Context).store.HoldsObjects) ∧
    ∃ stored direct frame after last,
      (compileMethod ⟨⟨{},none⟩,{}⟩ (declaresPrice.followedBy
        [.assign (keyed "Price") (.constant (.decimal listPrice) .start) .start,
        .assign (.localRef "price" .start) (keyed "pRICE") .start]) 0).1 = .ok stored ∧
      (compileMethod ⟨⟨{},none⟩,{}⟩ (declaresPrice.followedBy
        [.assign (.localRef "price" .start) (.constant (.decimal listPrice) .start) .start]) 0).1 =
          .ok direct ∧
      (execute CompiledMethod.quietHost 3 stored []).run {} = .ok frame after ∧
      (execute CompiledMethod.quietHost 3 direct []).run {} = .ok frame last ∧
      frame.get? "price" = some (.decimal listPrice) ∧
      after.store.get? "PRICE" = some (.boxed (.decimal listPrice)) := by
  have solid : ({} : CompileOptions).implicitType ≠ .void := StaticType.noConfusion
  have unset : ({} : CompileOptions).implicitType ≠ .string := StaticType.noConfusion
  have same : Text.fold "Price" = Text.fold "pRICE" := by decide +kernel
  have objects : ({} : Context).store.HoldsObjects := Store.emptyObjects
  obtain ⟨begins,b,begun,bound,typed⟩ : ∃ begins b,
      (compileMethod ⟨⟨{},none⟩,{}⟩ declaresPrice 0).1 = .ok begins ∧
      begins.local? "price" = some b ∧ b.entry.type = .decimal := ⟨_,_,rfl,rfl,rfl⟩
  obtain ⟨probe,compiles,n,reaches,found⟩ : ∃ probe,
      (compileMethod ⟨⟨{},none⟩,{}⟩ (declaresPrice.followedBy
        [.evaluate (.constant (.decimal listPrice) .start) .start]) 0).1 = .ok probe ∧
      ∃ n, probe.Reaches CompiledMethod.quietHost 3 [] {}
          (probe.listing.instructions.length - 1) n ∧
        n.stack.head? = some (.decimal listPrice) := ⟨_,rfl,_,rfl,rfl⟩
  have finishes : ((compileMethod ⟨⟨{},none⟩,{}⟩ (declaresPrice.followedBy
        [.assign (keyed "Price") (.constant (.decimal listPrice) .start) .start,
        .assign (.localRef "price" .start) (keyed "pRICE") .start]) 0).1.toOption.bind fun stored =>
      values? Frame.locals ((execute CompiledMethod.quietHost 3 stored []).run {})) =
        some [.decimal listPrice] := by decide +kernel
  obtain ⟨stored,direct,storedOk,directOk,transparent⟩ := storeIsTransparent solid unset begun bound
    (by rw [typed]; rfl) compiles (keyedAtKey "Price") (keyedAtKey "pRICE") same .start .start
    .start .start .start
  rw [storedOk] at finishes
  obtain ⟨frame,after,ran,_⟩ := valuesOk finishes
  obtain ⟨last,m,v,straight,holds,reached,top,_,_,_,maps⟩ :=
    transparent CompiledMethod.quietHost 3 [] {} after frame objects ran
  cases reaches.symm.trans reached
  cases found.symm.trans top
  rw [typed] at holds
  refine ⟨⟨⟨solid,unset⟩,same,objects⟩,stored,direct,frame,after,last,storedOk,directOk,ran,
    straight,holds,?_⟩
  rw [maps]
  exact if_pos (by decide +kernel)

end ScriptMachine
