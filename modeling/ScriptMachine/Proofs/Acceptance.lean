import ScriptMachine.Proofs.Matching
import ScriptMachine.Proofs.WellFormed
/-! Which methods are accepted, and what is said of the others. Compiling goes
along with the rules for methods: it succeeds where a tree passes, and where it
fails, the error is the first violation. What it keeps in addition is that no
name and no value has the type void. -/
namespace ScriptMachine

theorem findLocalFromEntry (slot : Nat) (locals : List Local) (name : String) :
    (findLocalFrom slot locals name).map (·.entry) = locals.find? fun entry => entry.name = name := by
  induction locals generalizing slot with
  | nil => rfl
  | cons entry rest ih =>
    unfold findLocalFrom
    by_cases same : entry.name = name
    · simp [same]
    · simp [same,ih]

namespace Draft

def known (d : Draft) : Known :=
  ⟨d.scope.locals,d.queries⟩

def Crowded (d : Draft) : Prop :=
  CompileM.accessorLimit + 1 < d.accessors.length

theorem knownFind (d : Draft) (name : String) :
    d.known.find? name = (d.scope.find? name).map (·.entry) :=
  (findLocalFromEntry 0 d.scope.locals name).symm

theorem knownBound (d : Draft) (name : String) (type : StaticType) (span : Span) :
    (CompileM.bound d name type span).known = d.known.bindFree name type span := by
  unfold Known.bindFree CompileM.bound Scope.bindOrReuse
  rw [knownFind]
  cases d.scope.find? name <;> rfl

theorem knownSlot (d : Draft) (name : String) (type : StaticType) (span : Span) :
    (d.known.bindFree name type span).find? name =
      some (d.scope.bindOrReuse name type span).1.entry := by
  rw [← knownBound,knownFind]
  have found := d.scope.bindOrReuseFind name type span
  simp only [CompileM.bound,found,Option.map_some]

end Draft

theorem coercionConverts {top : StaticType} (solid : top ≠ .void) (wanted : StaticType) :
    (Coercion.find? top wanted).isSome = true ↔ Converts top wanted := by
  unfold Coercion.find? Coercion.kind? Converts
  by_cases same : top = wanted
  · simp [same]
  · simp only [if_neg solid,same,false_or,Option.isSome_map]
    cases wanted with
    | array element => cases element <;> simp [StaticType.scalar?]
    | void | string | decimal | long | int | bool | object => simp [StaticType.scalar?]

/-- The outcome of compiling something is what the rules say, or accessors ran out. -/
inductive Decides {α : Type} (passes : α → Draft → Prop) (violates : CompileError → Prop) :
    EStateM.Result CompileError Draft α → Prop where
  | accepted {a after} (passed : passes a after) : Decides passes violates (.ok a after)
  | refused {e left} (fault : violates e) : Decides passes violates (.error e left)
  | crowded {e left} (many : left.Crowded) : Decides passes violates (.error e left)

namespace Decides
variable {α β : Type} {passes : α → Draft → Prop} {violates : CompileError → Prop}

theorem bind {x : CompileM α} {f : α → CompileM β} {d : Draft} {accepts : β → Draft → Prop}
    {refuses : CompileError → Prop} (first : Decides passes violates (x.run d))
    (early : ∀ e, violates e → refuses e)
    (rest : ∀ a middle, passes a middle → Decides accepts refuses ((f a).run middle)) :
    Decides accepts refuses ((x >>= f).run d) := by
  simp only [EStateM.run,Bind.bind,EStateM.bind] at first rest ⊢
  generalize x d = outcome at first
  cases first with
  | accepted passed => exact rest _ _ passed
  | refused fault => exact .refused (early _ fault)
  | crowded many => exact .crowded many

theorem after {x : CompileM α} {f : α → CompileM β} {d middle : Draft} {a : α}
    {accepts : β → Draft → Prop} (ran : x.run d = .ok a middle)
    (rest : Decides accepts violates ((f a).run middle)) :
    Decides accepts violates ((x >>= f).run d) := by
  simp only [EStateM.run,Bind.bind,EStateM.bind] at ran rest ⊢
  rw [ran]
  exact rest

theorem imp {outcome : EStateM.Result CompileError Draft α} {accepts : α → Draft → Prop}
    {refuses : CompileError → Prop} (decides : Decides passes violates outcome)
    (pass : ∀ a after, passes a after → accepts a after) (fault : ∀ e, violates e → refuses e) :
    Decides accepts refuses outcome := by
  cases decides with
  | accepted passed => exact .accepted (pass _ _ passed)
  | refused broken => exact .refused (fault _ broken)
  | crowded many => exact .crowded many

end Decides

section Deciding
variable (setup : CompileSetup)

def Expr.Decided (e : Expr) : Prop :=
  ∀ d : Draft, d.Solid → Decides
    (fun piece after => Passes setup d.known e piece.type after.known ∧ after.Solid ∧
      piece.type ≠ .void)
    (Violates setup d.known e) ((e.compile setup).run d)

def ItemsDecided (element : StaticType) (index : Nat) (items : List Expr) : Prop :=
  ∀ d : Draft, d.Solid → Decides
    (fun _ after => PassesAll setup d.known items element after.known ∧ after.Solid)
    (ViolatesAll setup d.known items element) ((Expr.compileItems setup element index items).run d)

variable {setup} {key value : Expr}

theorem Expr.Decided.converted {e : Expr} (decided : e.Decided setup) (wanted : StaticType)
    (d : Draft) (solid : d.Solid) :
    Decides (fun _ after => PassesAs setup d.known e wanted after.known ∧ after.Solid)
      (ViolatesAs setup d.known e wanted)
      ((CompileM.converted wanted e.span (e.compile setup)).run d) := by
  refine (decided d solid).bind (fun _ fault => .inside wanted fault) ?_
  rintro piece after ⟨passes,kept,typed⟩
  have known := coercionConverts typed wanted
  unfold CompileM.coerce
  cases found : Coercion.find? piece.type wanted with
  | some coercion =>
    rw [found] at known
    exact .accepted ⟨.converted passes (known.mp rfl),kept⟩
  | none =>
    rw [found] at known
    exact .refused (.unconverted passes fun converts => by cases known.mpr converts)

theorem lookupDecides (name : String) (span : Span) (d : Draft) :
    Decides (fun b after => after = d ∧ d.scope.find? name = some b)
      (fun e => d.scope.find? name = none ∧ e = .undefinedVariable name span)
      ((CompileM.lookupLocal name span).run d) := by
  change Decides _ _ ((MonadExcept.ofExcept (d.scope.lookup name span) : CompileM Binding).run d)
  unfold Scope.lookup
  cases found : d.scope.find? name with
  | some b => exact .accepted ⟨rfl,rfl⟩
  | none => exact .refused ⟨rfl,rfl⟩

theorem declareDecides (name : String) (type : StaticType) (span : Span) (d : Draft) :
    Decides
      (fun _ after => d.scope.find? name = none ∧
        after = { d with scope := (d.scope.bind name type span).2 })
      (fun e => ∃ first, d.scope.find? name = some first ∧
        e = .duplicateDeclaration name first.entry.span span)
      ((CompileM.declareLocal name type span).run d) := by
  change Decides _ _ (((MonadExcept.ofExcept (d.scope.declare name type span) :
    CompileM (Binding × Scope)) >>= fun pair => set { d with scope := pair.2 } >>= fun _ =>
      pure pair.1).run d)
  unfold Scope.declare
  cases found : d.scope.find? name with
  | some first => exact .refused ⟨first,rfl,rfl⟩
  | none => exact .accepted ⟨rfl,rfl⟩

theorem recordDecides (p : Property) (span : Span) (d : Draft) (violates : CompileError → Prop) :
    Decides (fun _ after => after.known = d.known ∧ (d.Solid → after.Solid)) violates
      ((CompileM.recordAccessor p span).run d) := by
  have bounded : d.accessors.findIdx (·.sharesAccessors p) ≤ d.accessors.length :=
    List.findIdx_le_length
  unfold CompileM.recordAccessor
  refine Decides.after rfl ?_
  by_cases absent : d.accessors.findIdx (·.sharesAccessors p) = d.accessors.length
  · simp only [if_pos absent]
    refine Decides.after rfl ?_
    split
    · refine .crowded ?_
      simp [Draft.Crowded]
      omega
    · exact .accepted ⟨rfl,id⟩
  · simp only [if_neg absent]
    split
    · refine .crowded ?_
      simp only [Draft.Crowded]
      omega
    · exact .accepted ⟨rfl,id⟩

namespace Expr

theorem localDecided (name : String) (span : Span) : (localRef name span).Decided setup := by
  intro d solid
  unfold compile
  have known := d.knownFind name
  refine (lookupDecides name span d).bind ?_ ?_
  · rintro e ⟨free,rfl⟩
    rw [free] at known
    exact .unbound span known
  · rintro b after ⟨rfl,found⟩
    rw [found] at known
    exact .accepted ⟨.localRef span known,solid,solid.found found⟩

theorem indexedDecided (base : Expr) (span : Span) (keys : key.Decided setup) :
    (indexed base key span).Decided setup := by
  intro d solid
  unfold compile
  refine (keys.converted .string d solid).bind (fun _ fault => .indexed base span fault) ?_
  rintro code after ⟨passes,kept⟩
  exact .accepted ⟨.indexed base span passes,kept,StaticType.noConfusion⟩

theorem propertyDecided (name : String) (span : Span) : (property name span).Decided setup := by
  intro d solid
  unfold compile CompileM.readProperty
  refine Decides.after rfl ?_
  split
  · exact .accepted ⟨.property name span,solid,StaticType.noConfusion⟩
  · rename_i p _
    refine (recordDecides p span (CompileM.asked d) _).bind (fun _ fault => fault) ?_
    rintro index after ⟨same,kept⟩
    have passes : Passes setup d.known (property name span) .object after.known :=
      same ▸ .property name span
    exact .accepted ⟨passes,kept solid,StaticType.noConfusion⟩

theorem arrayOfDecided (name : String) {items : List Expr} (span : Span)
    (filled : ∀ element, ItemsDecided setup element 0 items) :
    (arrayOf name items span).Decided setup := by
  intro d solid
  unfold compile CompileM.elementType
  cases named : StaticType.ofName? name with
  | none => exact .refused (.unknownType items span named)
  | some element =>
    simp only
    split
    · rename_i many
      exact .refused (.tooMany span named many)
    · rename_i few
      refine Decides.after rfl ?_
      have few := Nat.not_lt.mp few
      refine (filled element d solid).bind (fun _ fault => .arrayOf span named few fault) ?_
      rintro code after ⟨passes,kept⟩
      exact .accepted ⟨.arrayOf span named few passes,kept,StaticType.noConfusion⟩

theorem itemsConsDecided {element : StaticType} {index : Nat} {item : Expr} {items : List Expr}
    (first : item.Decided setup) (rest : ItemsDecided setup element (index + 1) items) :
    ItemsDecided setup element index (item :: items) := by
  intro d solid
  unfold compileItems
  refine (first.converted element d solid).bind (fun _ fault => .first items fault) ?_
  rintro code middle ⟨passes,kept⟩
  refine (rest middle kept).bind (fun _ fault => .later passes fault) ?_
  rintro more after ⟨others,still⟩
  exact .accepted ⟨.cons passes others,still⟩

theorem assignLocalDecided (form : AssignForm) (name : String) (place span : Span)
    (values : value.Decided setup) (typed : setup.options.implicitType ≠ .void) (d : Draft)
    (solid : d.Solid) :
    Decides
      (fun piece after => ∃ type,
        Passes setup d.known (assign (localRef name place) value span) type after.known ∧
        after.Solid ∧ type ≠ .void ∧ (form = .expression → piece.type = type))
      (Violates setup d.known (assign (localRef name place) value span))
      ((CompileM.assignLocal setup.options form name place value.span
        (value.compile setup)).run d) := by
  have slot := d.knownSlot name setup.options.implicitType place
  have known := d.knownBound name setup.options.implicitType place
  have firm : (d.scope.bindOrReuse name setup.options.implicitType place).1.entry.type ≠ .void := by
    unfold Scope.bindOrReuse
    cases found : d.scope.find? name with
    | some b => exact solid.found found
    | none => exact typed
  have checked := values.converted
    (d.scope.bindOrReuse name setup.options.implicitType place).1.entry.type
    (CompileM.bound d name setup.options.implicitType place) (solid.bound firm)
  rw [known] at checked
  unfold CompileM.assignLocal
  refine Decides.after rfl ?_
  refine checked.bind (fun _ fault => .assignLocal span slot fault) ?_
  rintro code after ⟨passes,kept⟩
  cases form with
  | statement => exact .accepted ⟨_,.assignLocal span slot passes,kept,firm,nofun⟩
  | expression => exact .accepted ⟨_,.assignLocal span slot passes,kept,firm,fun _ => rfl⟩

theorem assignStoredDecided (base : Expr) (place span : Span) (keys : key.Decided setup)
    (values : value.Decided setup) :
    (assign (indexed base key place) value span).Decided setup := by
  intro d solid
  unfold compile CompileM.assignStored
  refine (keys.converted .string d solid).bind
    (fun _ fault => .assignedKey base place value span fault) ?_
  rintro keyCode middle ⟨keyed,kept⟩
  refine (values.converted .object middle kept).bind
    (fun _ fault => .assignStored base place span keyed fault) ?_
  rintro code after ⟨passes,still⟩
  exact .accepted ⟨.assignStored base place span keyed passes,still,StaticType.noConfusion⟩

theorem assignPropertyDecided (name : String) (place span : Span) (values : value.Decided setup) :
    (assign (property name place) value span).Decided setup := by
  intro d solid
  unfold compile CompileM.assignProperty
  refine Decides.after rfl ?_
  cases answer : setup.lookup.resolveSetter d.queries name with
  | none =>
    simp only [answer]
    exact .accepted ⟨.skipProperty place value span answer,solid,StaticType.noConfusion⟩
  | some p =>
    simp only [answer]
    have written : setup.lookup.resolveSetter d.known.asked name ≠ none := by
      intro unwritten
      cases answer.symm.trans unwritten
    refine (values.converted .object (CompileM.asked d) solid).bind
      (fun _ fault => .assignProperty place span written fault) ?_
    rintro code middle ⟨passes,kept⟩
    refine (recordDecides p place middle _).bind (fun _ fault => fault) ?_
    rintro index after ⟨same,still⟩
    exact .accepted ⟨.assignProperty place span written (same ▸ passes),still kept,StaticType.noConfusion⟩

theorem decided (typed : setup.options.implicitType ≠ .void) (e : Expr) : e.Decided setup := by
  refine compile.induct (Decided setup) (ItemsDecided setup)
    ?constant ?null ?localRef ?argument ?indexed ?property ?arrayOf ?assignLocal ?assignIndexed
    ?assignProperty ?unassignable ?noItems ?moreItems e
  case constant =>
    intro c span d solid
    unfold compile
    exact .accepted ⟨.constant c span,solid,by cases c <;> exact StaticType.noConfusion⟩
  case null =>
    intro span d solid
    unfold compile
    exact .accepted ⟨.null span,solid,StaticType.noConfusion⟩
  case localRef => exact localDecided
  case argument =>
    intro index span d solid
    unfold compile
    exact .accepted ⟨.argument index span,solid,StaticType.noConfusion⟩
  case indexed =>
    intro base key span keys
    exact indexedDecided base span keys
  case property => exact propertyDecided
  case arrayOf =>
    intro name items span filled
    exact arrayOfDecided name span filled
  case assignLocal =>
    intro name place value span values d solid
    rw [compileAssign]
    refine (assignLocalDecided .expression name place span values typed d solid).imp ?_
      fun _ fault => fault
    rintro piece after ⟨type,passes,kept,firm,same⟩
    rw [same rfl]
    exact ⟨passes,kept,firm⟩
  case assignIndexed =>
    intro base key place value span keys values
    exact assignStoredDecided base place span keys values
  case assignProperty =>
    intro name place value span values
    exact assignPropertyDecided name place span values
  case unassignable =>
    intro target value span notLocal notIndexed notProperty d solid
    rw [compileAssign]
    cases target with
    | localRef name place => exact (notLocal name place rfl).elim
    | indexed base key place => exact (notIndexed base key place rfl).elim
    | property name place => exact (notProperty name place rfl).elim
    | constant | null | argument | arrayOf | assign => exact .refused (.unassignable value span rfl)
  case noItems =>
    intro element index d solid
    unfold compileItems
    exact .accepted ⟨.nil element,solid⟩
  case moreItems =>
    intro element index item items first rest
    exact itemsConsDecided first rest

end Expr

theorem Expr.assignmentForm {target : Expr} (value : Expr) (span : Span)
    (other : ∀ name place, target ≠ localRef name place) :
    compileAssignment setup .statement target value = (assign target value span).compile setup := by
  rw [compileAssign]
  cases target with
  | localRef name place => exact absurd rfl (other name place)
  | constant | null | argument | indexed | property | arrayOf | assign => rfl

theorem assignmentDecided (typed : setup.options.implicitType ≠ .void) (target value : Expr)
    (span : Span) (d : Draft) (solid : d.Solid) :
    Decides (fun _ after => StmtPasses setup d.known (.assign target value span) after.known ∧
        after.Solid)
      (StmtViolates setup d.known (.assign target value span))
      ((Expr.compileAssignment setup .statement target value).run d) := by
  by_cases assignsLocal : ∃ name place, target = .localRef name place
  · obtain ⟨name,place,rfl⟩ := assignsLocal
    refine (Expr.assignLocalDecided .statement name place span (value.decided typed) typed d
      solid).imp ?_ fun _ fault => .assign fault
    rintro piece after ⟨type,passes,kept,_⟩
    exact ⟨.assign passes,kept⟩
  · have other : ∀ name place, target ≠ .localRef name place :=
      fun name place same => assignsLocal ⟨name,place,same⟩
    rw [Expr.assignmentForm value span other]
    refine (Expr.decided typed _ d solid).imp ?_ fun _ fault => .assign fault
    rintro piece after ⟨passes,kept,_⟩
    exact ⟨.assign passes,kept⟩

theorem Stmt.decided (typed : setup.options.implicitType ≠ .void) (stmt : Stmt) (d : Draft)
    (solid : d.Solid) :
    Decides (fun _ after => StmtPasses setup d.known stmt after.known ∧ after.Solid)
      (StmtViolates setup d.known stmt) ((stmt.compile setup).run d) := by
  cases stmt with
  | declare name init span =>
    refine (init.decided typed d solid).bind (fun _ fault => .initial name span fault) ?_
    rintro piece middle ⟨passes,kept,firm⟩
    have known := middle.knownFind name
    refine (declareDecides name piece.type span middle).bind ?_ ?_
    · rintro e ⟨first,taken,rfl⟩
      rw [taken] at known
      exact .duplicate span passes known
    · rintro b after ⟨free,rfl⟩
      rw [free] at known
      exact .accepted ⟨.declare span passes known,kept.bind firm⟩
  | assign target value span =>
    refine (assignmentDecided typed target value span d solid).bind (fun _ fault => fault) ?_
    rintro piece after passed
    exact .accepted passed
  | evaluate e span =>
    refine (e.decided typed d solid).bind (fun _ fault => .evaluate span fault) ?_
    rintro piece after ⟨passes,kept,firm⟩
    exact .accepted ⟨.evaluate span passes,kept⟩

theorem bodyDecided (typed : setup.options.implicitType ≠ .void) (body : List Stmt)
    (emitter : Emitter) (d : Draft) (solid : d.Solid) :
    Decides (fun _ after => BodyPasses setup d.known body after.known)
      (BodyViolates setup d.known body) ((compileBody setup body emitter).run d) := by
  induction body generalizing emitter d with
  | nil => exact .accepted (.nil d.known)
  | cons stmt rest ih =>
    refine (stmt.decided typed d solid).bind (fun _ fault => .first rest fault) ?_
    rintro code middle ⟨passes,kept⟩
    exact (ih _ middle kept).imp (fun _ _ later => .cons passes later)
      fun _ fault => .later passes fault

end Deciding

def accessorsUsed (setup : CompileSetup) (method : Method) (queries : Nat) : Nat :=
  (lastState ((compileBody setup method.body { recordsLines := setup.options.recordsLines }).run
    { queries := queries })).accessors.length

theorem compilesWellFormedOnly (setup : CompileSetup) (method : Method) (queries : Nat)
    (typed : setup.options.implicitType ≠ .void)
    (few : accessorsUsed setup method queries < 0x100000000) :
    (∀ after, BodyPasses setup { asked := queries } method.body after ↔
      ∃ compiled, compileMethod setup method queries = (.ok compiled,after.asked) ∧
        compiled.locals = after.names) ∧
    ∀ e, BodyViolates setup { asked := queries } method.body e ↔
      (compileMethod setup method queries).1 = .error e := by
  have exclusive := bodyExclusive setup method.body
  have decides := bodyDecided typed method.body { recordsLines := setup.options.recordsLines }
    { queries := queries } nofun
  rw [compileMethodPieces]
  unfold accessorsUsed at few
  generalize (compileBody setup method.body { recordsLines := setup.options.recordsLines }).run
    { queries := queries } = outcome at decides few
  cases decides with
  | accepted passed =>
    refine ⟨fun after => ⟨?_,?_⟩,fun e => ⟨?_,nofun⟩⟩
    · intro passes
      obtain rfl := exclusive.unique passed passes
      exact ⟨_,rfl,rfl⟩
    · rintro ⟨compiled,same,locals⟩
      obtain ⟨names,asked⟩ := after
      cases same
      cases locals
      exact passed
    · intro violates
      exact (exclusive.apart passed violates).elim
  | refused fault =>
    refine ⟨fun after => ⟨?_,nofun⟩,fun e => ⟨?_,?_⟩⟩
    · intro passes
      exact (exclusive.apart passes fault).elim
    · intro violates
      rw [exclusive.first fault violates]
    · rintro ⟨⟩
      exact fault
  | crowded many =>
    simp only [Draft.Crowded,CompileM.accessorLimit] at many
    simp only [lastState] at few
    omega

def bindsInOrder : Method :=
  ⟨"main",[.assign (.localRef "x" .start)
    (.assign (.localRef "y" .start) (.indexed (.localRef "nowhere" .start) (.localRef "x" .start)
      .start) .start) .start,
    .declare "z" (.arrayOf "int" [.localRef "y" .start] .start) .start],.start⟩

theorem nestedBindingsPass :
    (({} : CompileOptions).implicitType ≠ .void ∧
      accessorsUsed ⟨⟨{},none⟩,{}⟩ bindsInOrder 0 < 0x100000000) ∧
    BodyPasses ⟨⟨{},none⟩,{}⟩ {} bindsInOrder.body
      ⟨[⟨"x",.int,.start⟩,⟨"y",.int,.start⟩,⟨"z",.array .int,.start⟩],0⟩ ∧
    ¬ BodyViolates ⟨⟨{},none⟩,{}⟩ {} bindsInOrder.body (.undefinedVariable "nowhere" .start) := by
  have typed : ({} : CompileOptions).implicitType ≠ .void := StaticType.noConfusion
  have few : accessorsUsed ⟨⟨{},none⟩,{}⟩ bindsInOrder 0 < 0x100000000 := by decide
  obtain ⟨passes,violates⟩ := compilesWellFormedOnly ⟨⟨{},none⟩,{}⟩ bindsInOrder 0 typed few
  refine ⟨⟨typed,few⟩,(passes _).mpr ⟨_,rfl,rfl⟩,fun fault => ?_⟩
  cases (violates _).mp fault

end ScriptMachine
