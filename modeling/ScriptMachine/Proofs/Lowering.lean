import ScriptMachine.Proofs.ValueTyping
/-! Compiling read backward: from code that was made to the parts it was made
of. A method's names and accessors only grow while it is compiled, so that a slot
or an accessor that code refers to is there for good. -/
namespace ScriptMachine

theorem bindOk {ε σ α β : Type} {x : EStateM ε σ α} {f : α → EStateM ε σ β} {s last : σ} {b : β}
    (ok : (x >>= f).run s = .ok b last) :
    ∃ a middle, x.run s = .ok a middle ∧ (f a).run middle = .ok b last := by
  simp only [EStateM.run,bind,EStateM.bind] at ok ⊢
  cases first : x s with
  | ok a middle =>
    rw [first] at ok
    exact ⟨a,middle,rfl,ok⟩
  | error e middle =>
    rw [first] at ok
    cases ok

def values? {ε σ α β : Type} (f : α → β) : EStateM.Result ε σ α → Option β
  | .ok a _ => some (f a)
  | .error _ _ => none

theorem valuesOk {ε σ α β : Type} {f : α → β} {outcome : EStateM.Result ε σ α} {b : β}
    (found : values? f outcome = some b) : ∃ a s, outcome = .ok a s ∧ f a = b := by
  cases outcome with
  | ok a s => exact ⟨a,s,rfl,Option.some.inj found⟩
  | error e s => cases found

def failure? {ε σ α : Type} : EStateM.Result ε σ α → Option ε
  | .ok _ _ => none
  | .error e _ => some e

theorem failureFound {ε σ α : Type} {outcome : EStateM.Result ε σ α} {e : ε}
    (found : failure? outcome = some e) : ∃ s, outcome = .error e s := by
  cases outcome with
  | ok a s => cases found
  | error e s =>
    cases found
    exact ⟨s,rfl⟩

theorem exceptOk {ε α β : Type} {f : α → β} {outcome : Except ε α} {b : β}
    (found : outcome.toOption.map f = some b) : ∃ a, outcome = .ok a ∧ f a = b := by
  cases outcome with
  | ok a => exact ⟨a,rfl,Option.some.inj found⟩
  | error e => cases found

structure Draft.Grows (old new : Draft) : Prop where
  locals : old.scope.locals <+: new.scope.locals
  accessors : old.accessors <+: new.accessors

theorem Draft.growsRefl (d : Draft) : d.Grows d :=
  ⟨List.prefix_refl _,List.prefix_refl _⟩

theorem Draft.Grows.trans {first second third : Draft} (left : first.Grows second)
    (right : second.Grows third) : first.Grows third :=
  ⟨left.locals.trans right.locals,left.accessors.trans right.accessors⟩

theorem prefixAt {α : Type} {old new : List α} (grown : old <+: new) {n : Nat} {a : α}
    (found : old[n]? = some a) : new[n]? = some a := by
  obtain ⟨more,rfl⟩ := grown
  rw [List.getElem?_append_left (List.getElem?_eq_some_iff.mp found).1]
  exact found

namespace Scope

theorem findGrown {old new : Scope} (grown : old.locals <+: new.locals) {name : String}
    {b : Binding} (found : old.find? name = some b) : new.find? name = some b := by
  obtain ⟨more,same⟩ := grown
  unfold find? findLocal? at found ⊢
  rw [← same,findLocalFromAppend,found]
  rfl

theorem bindOrReuseFind (scope : Scope) (name : String) (type : StaticType) (span : Span) :
    (scope.bindOrReuse name type span).2.find? name =
      some (scope.bindOrReuse name type span).1 := by
  unfold bindOrReuse
  cases found : scope.find? name with
  | some b => exact found
  | none => simp only [findBind,found,if_true,Option.none_or]

theorem bindOrReuseGrows (scope : Scope) (name : String) (type : StaticType) (span : Span) :
    scope.locals <+: (scope.bindOrReuse name type span).2.locals := by
  unfold bindOrReuse
  cases scope.find? name with
  | some b => exact List.prefix_refl _
  | none => exact List.prefix_append _ _

end Scope

namespace Lookup

theorem getterFound (lookup : Lookup) {query : Nat} {name : String} {p : Property}
    (known : lookup.resolveGetter query name = some p) :
    p.hasAccessor = true := by
  have served := (Option.filter_eq_some_iff.mp known).2
  simp [Property.hasAccessor,served]

theorem setterFound (lookup : Lookup) {query : Nat} {name : String} {p : Property}
    (known : lookup.resolveSetter query name = some p) :
    p.hasAccessor = true := by
  have served := (Option.filter_eq_some_iff.mp known).2
  simp [Property.hasAccessor,served]

end Lookup

namespace CompileM
variable {d after : Draft}

theorem lookupLocalOk {name : String} {span : Span} {b : Binding}
    (ok : (lookupLocal name span).run d = .ok b after) :
    after = d ∧ d.scope.find? name = some b := by
  change (MonadExcept.ofExcept (d.scope.lookup name span) : CompileM Binding).run d = _ at ok
  unfold Scope.lookup at ok
  cases found : d.scope.find? name with
  | some known =>
    rw [found] at ok
    cases ok
    exact ⟨rfl,rfl⟩
  | none =>
    rw [found] at ok
    cases ok

theorem declareLocalOk {name : String} {type : StaticType} {span : Span} {b : Binding}
    (ok : (declareLocal name type span).run d = .ok b after) :
    d.scope.find? name = none ∧ b = (d.scope.bind name type span).1 ∧
      after = { d with scope := (d.scope.bind name type span).2 } := by
  obtain ⟨known,middle,got,rest⟩ := bindOk ok
  cases got
  obtain ⟨pair,next,declared,last⟩ := bindOk rest
  unfold Scope.declare at declared
  cases found : d.scope.find? name with
  | some first =>
    rw [found] at declared
    cases declared
  | none =>
    rw [found] at declared
    cases declared
    cases last
    exact ⟨rfl,rfl,rfl⟩

theorem recordAccessorCases {p : Property} {span : Span} {index : Nat}
    (ok : (recordAccessor p span).run d = .ok index after) :
    (∃ q, d.accessors[index]? = some q ∧ q.sharesAccessors p = true ∧ after = d) ∨
      (index = d.accessors.length ∧ (∀ q ∈ d.accessors, q.sharesAccessors p = false) ∧
        after = { d with accessors := d.accessors ++ [p] }) := by
  obtain ⟨known,middle,got,rest⟩ := bindOk ok
  cases got
  by_cases absent : d.accessors.findIdx (·.sharesAccessors p) = d.accessors.length
  · simp only [if_pos absent] at rest
    obtain ⟨u,next,added,last⟩ := bindOk rest
    cases added
    split at last
    · cases last
    · cases last
      exact .inr ⟨absent,List.findIdx_eq_length.mp absent,rfl⟩
  · simp only [if_neg absent] at rest
    split at rest
    · cases rest
    · cases rest
      have below : d.accessors.findIdx (·.sharesAccessors p) < d.accessors.length :=
        Nat.lt_of_le_of_ne List.findIdx_le_length absent
      exact .inl ⟨_,List.getElem?_eq_getElem below,
        List.findIdx_getElem (p := fun q : Property => q.sharesAccessors p) (w := below),rfl⟩

theorem recordAccessorOk {p : Property} {span : Span} {index : Nat} (served : p.hasAccessor = true)
    (ok : (recordAccessor p span).run d = .ok index after) :
    (∃ q, after.accessors[index]? = some q ∧ q.sharesAccessors p = true) ∧
      ∃ accessors, d.accessors <+: accessors ∧ after = { d with accessors := accessors } := by
  have own : p.sharesAccessors p = true := by simp [Property.sharesAccessors,served]
  rcases recordAccessorCases ok with ⟨q,found,shared,rfl⟩ | ⟨rfl,others,rfl⟩
  · exact ⟨⟨q,found,shared⟩,after.accessors,List.prefix_refl _,rfl⟩
  · exact ⟨⟨p,by simp,own⟩,d.accessors ++ [p],List.prefix_append _ _,rfl⟩

theorem coerceOk {top wanted : StaticType} {span : Span} {code : List Instruction}
    (ok : (coerce top wanted span).run d = .ok code after) :
    after = d ∧ Coerces top wanted code := by
  unfold coerce at ok
  cases found : Coercion.find? top wanted with
  | some c =>
    rw [found] at ok
    cases ok
    exact ⟨rfl,Coercion.coerces found⟩
  | none =>
    rw [found] at ok
    cases ok

theorem convertedOk {wanted : StaticType} {span : Span} {compiled : CompileM Piece}
    {code : List Instruction} (ok : (converted wanted span compiled).run d = .ok code after) :
    ∃ piece conversion, compiled.run d = .ok piece after ∧
      Coerces piece.type wanted conversion ∧ code = piece.code ++ conversion := by
  obtain ⟨piece,middle,made,rest⟩ := bindOk ok
  obtain ⟨conversion,next,coerced,last⟩ := bindOk rest
  obtain ⟨rfl,coerces⟩ := coerceOk coerced
  cases last
  exact ⟨piece,conversion,made,coerces,rfl⟩

theorem elementTypeOk {name : String} {count : Nat} {span : Span} {element : StaticType}
    (ok : (elementType name count span).run d = .ok element after) :
    after = d ∧ StaticType.ofName? name = some element ∧ count ≤ initializerLimit := by
  unfold elementType at ok
  cases named : StaticType.ofName? name with
  | none =>
    rw [named] at ok
    cases ok
  | some known =>
    rw [named] at ok
    simp only at ok
    split at ok
    · cases ok
    · cases ok
      exact ⟨rfl,rfl,by omega⟩

def asked (d : Draft) : Draft :=
  { d with queries := d.queries + 1 }

def bound (d : Draft) (name : String) (type : StaticType) (span : Span) : Draft :=
  { d with scope := (d.scope.bindOrReuse name type span).2 }

def storedPiece (b : Binding) (code : List Instruction) : AssignForm → Piece
  | .statement => ⟨code ++ [.storeLocal b.slot],.void⟩
  | .expression => ⟨code ++ [.dup,.storeLocal b.slot],b.entry.type⟩

theorem assignLocalOk {options : CompileOptions} {form : AssignForm} {name : String}
    {span valueSpan : Span} {value : CompileM Piece} {piece : Piece}
    (ok : (assignLocal options form name span valueSpan value).run d = .ok piece after) :
    ∃ code, (converted (d.scope.bindOrReuse name options.implicitType span).1.entry.type valueSpan
        value).run (bound d name options.implicitType span) = .ok code after ∧
      piece = storedPiece (d.scope.bindOrReuse name options.implicitType span).1 code form := by
  obtain ⟨b,middle,binds,rest⟩ := bindOk ok
  cases binds
  obtain ⟨code,next,made,last⟩ := bindOk rest
  cases form with
  | statement =>
    cases last
    exact ⟨code,made,rfl⟩
  | expression =>
    cases last
    exact ⟨code,made,rfl⟩

theorem assignStoredOk {keySpan valueSpan : Span} {key value : CompileM Piece} {piece : Piece}
    (ok : (assignStored keySpan valueSpan key value).run d = .ok piece after) :
    ∃ keyCode middle valueCode, (converted .string keySpan key).run d = .ok keyCode middle ∧
      (converted .object valueSpan value).run middle = .ok valueCode after ∧
      piece = ⟨.loadStore :: keyCode ++ valueCode ++ [.call .storeSet],.object⟩ := by
  obtain ⟨keyCode,middle,keyMade,rest⟩ := bindOk ok
  obtain ⟨valueCode,next,valueMade,last⟩ := bindOk rest
  cases last
  exact ⟨keyCode,middle,valueCode,keyMade,valueMade,rfl⟩

theorem assignPropertyOk {lookup : Lookup} {name : String} {span valueSpan : Span}
    {value : CompileM Piece} {piece : Piece}
    (ok : (assignProperty lookup name span valueSpan value).run d = .ok piece after) :
    (lookup.resolveSetter d.queries name = none ∧ after = asked d ∧
      piece = ⟨[.pushNull],.object⟩) ∨
    ∃ p code middle index, lookup.resolveSetter d.queries name = some p ∧
      (converted .object valueSpan value).run (asked d) = .ok code middle ∧
      (recordAccessor p span).run middle = .ok index after ∧
      piece = ⟨code ++ [.dup,.callSetter index],.object⟩ := by
  obtain ⟨answer,middle,put,rest⟩ := bindOk ok
  cases put
  cases resolved : lookup.resolveSetter d.queries name with
  | none =>
    simp only [resolved] at rest
    cases rest
    exact .inl ⟨rfl,rfl,rfl⟩
  | some p =>
    simp only [resolved] at rest
    obtain ⟨code,next,made,tail⟩ := bindOk rest
    obtain ⟨index,recorded,record,last⟩ := bindOk tail
    cases last
    exact .inr ⟨p,code,next,index,rfl,made,record,rfl⟩

theorem readPropertyOk {lookup : Lookup} {name : String} {span : Span} {piece : Piece}
    (ok : (readProperty lookup name span).run d = .ok piece after) :
    (lookup.resolveGetter d.queries name = none ∧ after = asked d ∧
      piece = ⟨[.pushNull],.object⟩) ∨
    ∃ p index, lookup.resolveGetter d.queries name = some p ∧
      (recordAccessor p span).run (asked d) = .ok index after ∧
      piece = ⟨[.callGetter index],.object⟩ := by
  obtain ⟨answer,middle,put,rest⟩ := bindOk ok
  cases put
  cases resolved : lookup.resolveGetter d.queries name with
  | none =>
    simp only [resolved] at rest
    cases rest
    exact .inl ⟨rfl,rfl,rfl⟩
  | some p =>
    simp only [resolved] at rest
    obtain ⟨index,recorded,record,last⟩ := bindOk rest
    cases last
    exact .inr ⟨p,index,rfl,record,rfl⟩

end CompileM

/-- What code is made for: an expression as it stands or converted to a type, the
initializers of an array from an index on, or an assignment in one of its forms. -/
inductive Part where
  | value (e : Expr)
  | converted (wanted : StaticType) (e : Expr)
  | items (element : StaticType) (index : Nat) (items : List Expr)
  | assignment (form : AssignForm) (target value : Expr) (span : Span)
  deriving Repr

open CompileM in
inductive Coded (setup : CompileSetup) : Part → Draft → Piece → Draft → Prop where
  | constant {d} (c span) : Coded setup (.value (.constant c span)) d ⟨[.pushConst c],c.type⟩ d
  | null {d} (span) : Coded setup (.value (.null span)) d ⟨[.pushNull],.object⟩ d
  | localRef {d name b} (span) (found : d.scope.find? name = some b) :
      Coded setup (.value (.localRef name span)) d ⟨[.loadLocal b.slot],b.entry.type⟩ d
  | argument {d} (index span) :
      Coded setup (.value (.argument index span)) d ⟨[.loadArgument 0],.array .object⟩ d
  | indexed {d code after key} (base span)
      (keys : Coded setup (.converted .string key) d ⟨code,.string⟩ after) :
      Coded setup (.value (.indexed base key span)) d
        ⟨.loadStore :: code ++ [.call .storeGet],.object⟩ after
  | unread {d name} (span) (unknown : setup.lookup.resolveGetter d.queries name = none) :
      Coded setup (.value (.property name span)) d ⟨[.pushNull],.object⟩ (asked d)
  | read {d after name p index} (span)
      (known : setup.lookup.resolveGetter d.queries name = some p)
      (recorded : (recordAccessor p span).run (asked d) = .ok index after) :
      Coded setup (.value (.property name span)) d ⟨[.callGetter index],.object⟩ after
  | arrayOf {d code after name element items} (span)
      (known : StaticType.ofName? name = some element) (few : items.length ≤ initializerLimit)
      (filled : Coded setup (.items element 0 items) d ⟨code,.void⟩ after) :
      Coded setup (.value (.arrayOf name items span)) d
        ⟨.pushInt (Int32.ofNat items.length) :: .newArray element :: code,.array element⟩ after
  | assign {d piece after target value} (span)
      (assigned : Coded setup (.assignment .expression target value span) d piece after) :
      Coded setup (.value (.assign target value span)) d piece after
  | converted {d piece after e wanted conversion} (made : Coded setup (.value e) d piece after)
      (coerces : Coerces piece.type wanted conversion) :
      Coded setup (.converted wanted e) d ⟨piece.code ++ conversion,wanted⟩ after
  | noItems {d} (element index) : Coded setup (.items element index []) d ⟨[],.void⟩ d
  | moreItems {d code middle more after element index item items}
      (first : Coded setup (.converted element item) d ⟨code,element⟩ middle)
      (rest : Coded setup (.items element (index + 1) items) middle ⟨more,.void⟩ after) :
      Coded setup (.items element index (item :: items)) d
        ⟨.dup :: .pushInt (Int32.ofNat index) :: code ++ .storeElement :: more,.void⟩ after
  | assignLocal {d code after name value} (form place span)
      (made : Coded setup (.converted
          (d.scope.bindOrReuse name setup.options.implicitType place).1.entry.type value)
        (bound d name setup.options.implicitType place)
        ⟨code,(d.scope.bindOrReuse name setup.options.implicitType place).1.entry.type⟩ after) :
      Coded setup (.assignment form (.localRef name place) value span) d
        (storedPiece (d.scope.bindOrReuse name setup.options.implicitType place).1 code form) after
  | assignStored {d keyCode middle code after key value} (form base place span)
      (keys : Coded setup (.converted .string key) d ⟨keyCode,.string⟩ middle)
      (made : Coded setup (.converted .object value) middle ⟨code,.object⟩ after) :
      Coded setup (.assignment form (.indexed base key place) value span) d
        ⟨.loadStore :: keyCode ++ code ++ [.call .storeSet],.object⟩ after
  | unwritten {d name} (form place value span)
      (unknown : setup.lookup.resolveSetter d.queries name = none) :
      Coded setup (.assignment form (.property name place) value span) d ⟨[.pushNull],.object⟩
        (asked d)
  | write {d code middle after name p index value} (form place span)
      (known : setup.lookup.resolveSetter d.queries name = some p)
      (made : Coded setup (.converted .object value) (asked d) ⟨code,.object⟩ middle)
      (recorded : (recordAccessor p place).run middle = .ok index after) :
      Coded setup (.assignment form (.property name place) value span) d
        ⟨code ++ [.dup,.callSetter index],.object⟩ after

section Coding
open CompileM
variable {setup : CompileSetup} {d after : Draft} {piece : Piece}

def Expr.Codes (setup : CompileSetup) (e : Expr) : Prop :=
  ∀ ⦃d after : Draft⦄ ⦃piece : Piece⦄, (e.compile setup).run d = .ok piece after →
    Coded setup (.value e) d piece after

theorem Expr.Codes.converted {e : Expr} (codes : e.Codes setup) {wanted : StaticType}
    {span : Span} {code : List Instruction}
    (ok : (CompileM.converted wanted span (e.compile setup)).run d = .ok code after) :
    Coded setup (.converted wanted e) d ⟨code,wanted⟩ after := by
  obtain ⟨piece,conversion,made,coerces,rfl⟩ := convertedOk ok
  exact .converted (codes made) coerces

theorem Expr.Codes.assignment {target value : Expr}
    (keys : ∀ base key place, target = .indexed base key place → key.Codes setup)
    (values : value.Codes setup) {form : AssignForm} (span : Span)
    (ok : (compileAssignment setup form target value).run d = .ok piece after) :
    Coded setup (.assignment form target value span) d piece after := by
  unfold compileAssignment at ok
  split at ok
  · obtain ⟨code,made,rfl⟩ := assignLocalOk ok
    exact .assignLocal form _ span (values.converted made)
  · obtain ⟨keyCode,middle,code,keyMade,made,rfl⟩ := assignStoredOk ok
    exact .assignStored form _ _ span ((keys _ _ _ rfl).converted keyMade) (values.converted made)
  · rcases assignPropertyOk ok with
      ⟨unknown,rfl,rfl⟩ | ⟨p,code,middle,index,known,made,recorded,rfl⟩
    · exact .unwritten form _ value span unknown
    · exact .write form _ span known (values.converted made) recorded
  · cases ok

theorem Expr.codes (e : Expr) : e.Codes setup := by
  refine compile.induct (Codes setup)
    (fun element index items => ∀ ⦃d after code⦄,
      (compileItems setup element index items).run d = .ok code after →
        Coded setup (.items element index items) d ⟨code,.void⟩ after)
    ?constant ?null ?localRef ?argument ?indexed ?property ?arrayOf ?assignLocal ?assignIndexed
    ?assignProperty ?unassignable ?noItems ?moreItems e
  case constant =>
    intro c span d after piece ok
    cases ok
    exact .constant c span
  case null =>
    intro span d after piece ok
    cases ok
    exact .null span
  case localRef =>
    intro name span d after piece ok
    unfold compile at ok
    obtain ⟨b,middle,looked,last⟩ := bindOk ok
    obtain ⟨rfl,found⟩ := lookupLocalOk looked
    cases last
    exact .localRef span found
  case argument =>
    intro index span d after piece ok
    cases ok
    exact .argument index span
  case indexed =>
    intro base key span keys d after piece ok
    unfold compile at ok
    obtain ⟨code,middle,made,last⟩ := bindOk ok
    cases last
    exact .indexed base span (keys.converted made)
  case property =>
    intro name span d after piece ok
    unfold compile at ok
    rcases readPropertyOk ok with ⟨unknown,rfl,rfl⟩ | ⟨p,index,known,recorded,rfl⟩
    · exact .unread span unknown
    · exact .read span known recorded
  case arrayOf =>
    intro name items span filled d after piece ok
    unfold compile at ok
    obtain ⟨element,middle,named,rest⟩ := bindOk ok
    obtain ⟨rfl,known,few⟩ := elementTypeOk named
    obtain ⟨code,next,made,last⟩ := bindOk rest
    cases last
    exact .arrayOf span known few (filled element made)
  case assignLocal =>
    intro name place value span values d after piece ok
    rw [compileAssign] at ok
    exact .assign span (Codes.assignment (fun _ _ _ other => by cases other) values span ok)
  case assignIndexed =>
    intro base key place value span keys values d after piece ok
    rw [compileAssign] at ok
    refine .assign span (Codes.assignment ?_ values span ok)
    intro _ _ _ same
    cases same
    exact keys
  case assignProperty =>
    intro name place value span values d after piece ok
    rw [compileAssign] at ok
    exact .assign span (Codes.assignment (fun _ _ _ other => by cases other) values span ok)
  case unassignable =>
    intro target value span notLocal notIndexed notProperty d after piece ok
    rw [compile] at ok
    · cases ok
    all_goals assumption
  case noItems =>
    intro element index d after code ok
    cases ok
    exact .noItems element index
  case moreItems =>
    intro element index item items first rest d after code ok
    unfold compileItems at ok
    obtain ⟨itemCode,middle,made,more⟩ := bindOk ok
    obtain ⟨others,next,filled,last⟩ := bindOk more
    cases last
    exact .moreItems (first.converted made) (rest filled)

theorem assignmentCoded {form : AssignForm} {target value : Expr} (span : Span)
    (ok : (Expr.compileAssignment setup form target value).run d = .ok piece after) :
    Coded setup (.assignment form target value span) d piece after :=
  Expr.Codes.assignment (fun _ key _ _ => key.codes) value.codes span ok

theorem recordGrows {p : Property} {span : Span} {index : Nat}
    (recorded : (recordAccessor p span).run d = .ok index after) :
    d.Grows after ∧ after.scope = d.scope ∧ after.queries = d.queries := by
  rcases recordAccessorCases recorded with ⟨_,_,_,rfl⟩ | ⟨_,_,rfl⟩
  · exact ⟨after.growsRefl,rfl,rfl⟩
  · exact ⟨⟨List.prefix_refl _,List.prefix_append _ _⟩,rfl,rfl⟩

theorem Coded.grows {part : Part} (coded : Coded setup part d piece after) : d.Grows after := by
  have question (d : Draft) : d.Grows (asked d) := ⟨List.prefix_refl _,List.prefix_refl _⟩
  induction coded with
  | constant | null | localRef | argument | noItems => exact Draft.growsRefl _
  | indexed _ _ _ ih | arrayOf _ _ _ _ ih | assign _ _ ih | converted _ _ ih => exact ih
  | unread | unwritten => exact question _
  | read _ _ recorded => exact (question _).trans (recordGrows recorded).1
  | moreItems _ _ ih others => exact ih.trans others
  | @assignLocal d code after name value form place span made ih =>
    have named : d.Grows (bound d name setup.options.implicitType place) :=
      ⟨d.scope.bindOrReuseGrows name setup.options.implicitType place,List.prefix_refl _⟩
    exact named.trans ih
  | assignStored _ _ _ _ _ _ keyGrows ih => exact keyGrows.trans ih
  | write _ _ _ _ _ recorded ih => exact ((question _).trans ih).trans (recordGrows recorded).1

end Coding

inductive StmtCoded (setup : CompileSetup) : Stmt → Draft → List Instruction → Draft → Prop where
  | declare {d piece middle name init} (span) (made : Coded setup (.value init) d piece middle)
      (free : middle.scope.find? name = none) :
      StmtCoded setup (.declare name init span) d
        (piece.code ++ [.storeLocal middle.scope.size])
        { middle with scope := (middle.scope.bind name piece.type span).2 }
  | assign {d piece after target value} (span)
      (made : Coded setup (.assignment .statement target value span) d piece after) :
      StmtCoded setup (.assign target value span) d piece.discarded after
  | evaluate {d piece after e} (span) (made : Coded setup (.value e) d piece after) :
      StmtCoded setup (.evaluate e span) d piece.discarded after

section Statements
open CompileM
variable {setup : CompileSetup} {d after : Draft} {code : List Instruction}

theorem Stmt.codes {stmt : Stmt} (ok : (stmt.compile setup).run d = .ok code after) :
    StmtCoded setup stmt d code after := by
  cases stmt with
  | declare name init span =>
    obtain ⟨piece,middle,made,rest⟩ := bindOk ok
    obtain ⟨b,next,declared,last⟩ := bindOk rest
    obtain ⟨free,rfl,rfl⟩ := declareLocalOk declared
    cases last
    exact .declare span (init.codes made) free
  | assign target value span =>
    obtain ⟨piece,middle,made,last⟩ := bindOk ok
    cases last
    exact .assign span (assignmentCoded span made)
  | evaluate e span =>
    obtain ⟨piece,middle,made,last⟩ := bindOk ok
    cases last
    exact .evaluate span (e.codes made)

theorem StmtCoded.grows {stmt : Stmt} (coded : StmtCoded setup stmt d code after) :
    d.Grows after := by
  cases coded with
  | declare span made free => exact made.grows.trans ⟨List.prefix_append _ _,List.prefix_refl _⟩
  | assign span made => exact made.grows
  | evaluate span made => exact made.grows

end Statements

inductive Lowers (setup : CompileSetup) : List Stmt → Draft → List Instruction → Draft → Prop where
  | nil (d) : Lowers setup [] d [] d
  | cons {stmt rest d code middle more after} (first : (stmt.compile setup).run d = .ok code middle)
      (others : Lowers setup rest middle more after) :
      Lowers setup (stmt :: rest) d (code ++ more) after

theorem Lowers.grows {setup : CompileSetup} {body : List Stmt} {d after : Draft}
    {code : List Instruction} (lowers : Lowers setup body d code after) : d.Grows after := by
  induction lowers with
  | nil d => exact d.growsRefl
  | cons first others ih => exact (Stmt.codes first).grows.trans ih

section Parts
variable {setup : CompileSetup} {body rest : List Stmt} {d middle after : Draft}
variable {code more : List Instruction}

theorem Lowers.append (first : Lowers setup body d code middle)
    (second : Lowers setup rest middle more after) :
    Lowers setup (body ++ rest) d (code ++ more) after := by
  induction first with
  | nil d => exact second
  | cons stmt others ih =>
    rw [List.append_assoc]
    exact .cons stmt (ih second)

theorem Lowers.split (lowers : Lowers setup (body ++ rest) d code after) :
    ∃ front middle back, Lowers setup body d front middle ∧ Lowers setup rest middle back after ∧
      code = front ++ back := by
  induction body generalizing d code with
  | nil => exact ⟨[],d,code,.nil d,lowers,rfl⟩
  | cons stmt body ih =>
    cases lowers with
    | cons first others =>
      obtain ⟨front,middle,back,one,two,rfl⟩ := ih others
      exact ⟨_,middle,back,.cons first one,two,(List.append_assoc ..).symm⟩

theorem Lowers.unique {last : Draft} (lowers : Lowers setup body d code after)
    (again : Lowers setup body d more last) : code = more ∧ after = last := by
  induction lowers generalizing more with
  | nil d =>
    cases again
    exact ⟨rfl,rfl⟩
  | cons first others ih =>
    cases again with
    | cons also rest =>
      cases first.symm.trans also
      obtain ⟨rfl,rfl⟩ := ih rest
      exact ⟨rfl,rfl⟩

theorem Lowers.emits (lowers : Lowers setup body d code after) (emitter : Emitter) :
    ∃ done : Emitter, (compileBody setup body emitter).run d = .ok done after ∧
      done.listing.instructions = emitter.listing.instructions ++ code := by
  induction lowers generalizing emitter with
  | nil d => exact ⟨emitter,rfl,by simp⟩
  | @cons stmt rest d code middle more after first others ih =>
    obtain ⟨done,ran,listed⟩ := ih ((emitter.setLine stmt.span.line).emitAll code)
    refine ⟨done,?_,?_⟩
    · simp only [compileBody,EStateM.run_bind,first]
      exact ran
    · rw [listed,Emitter.instructionsEmitAll,List.append_assoc]
      rfl

end Parts

theorem bodyLowers {setup : CompileSetup} {body : List Stmt} {emitter done : Emitter}
    {d after : Draft} (ok : (compileBody setup body emitter).run d = .ok done after) :
    ∃ code, done.listing.instructions = emitter.listing.instructions ++ code ∧
      Lowers setup body d code after := by
  induction body generalizing emitter d with
  | nil =>
    cases ok
    exact ⟨[],by simp,.nil _⟩
  | cons stmt rest ih =>
    obtain ⟨code,middle,first,others⟩ := bindOk ok
    obtain ⟨more,listed,lowers⟩ := ih others
    refine ⟨code ++ more,?_,.cons first lowers⟩
    rw [listed,Emitter.instructionsEmitAll,List.append_assoc]
    rfl

theorem methodLowers {setup : CompileSetup} {method : Method} {queries : Nat}
    {compiled : CompiledMethod} (ok : (compileMethod setup method queries).1 = .ok compiled) :
    ∃ draft, Lowers setup method.body { queries := queries } compiled.listing.instructions draft ∧
      compiled.locals = draft.scope.locals ∧ compiled.accessors = draft.accessors := by
  rw [compileMethodPieces] at ok
  split at ok
  · rename_i emitter draft done
    cases ok
    obtain ⟨code,listed,lowers⟩ := bodyLowers done
    rw [← List.nil_append code] at lowers
    exact ⟨draft,listed ▸ lowers,rfl,rfl⟩
  · cases ok

theorem Lowers.compiles {setup : CompileSetup} {method : Method} {queries : Nat} {draft : Draft}
    {code : List Instruction} (lowers : Lowers setup method.body { queries := queries } code draft) :
    ∃ compiled, (compileMethod setup method queries).1 = .ok compiled ∧
      compiled.listing.instructions = code ∧ compiled.locals = draft.scope.locals ∧
      compiled.accessors = draft.accessors := by
  obtain ⟨done,ran,listed⟩ := lowers.emits { recordsLines := setup.options.recordsLines }
  refine ⟨⟨method.name,done.listing,draft.scope.locals,draft.accessors⟩,?_,listed,rfl,rfl⟩
  simp only [compileMethodPieces,ran]

end ScriptMachine
