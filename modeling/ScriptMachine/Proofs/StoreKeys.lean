import ScriptMachine.Proofs.CodeFlow
import ScriptMachine.Proofs.Simulation
/-! Keys of the store when code runs. A key is converted to a text where its type
is another one; a value whose type is string already is taken as it is. A place
of the type string holds null before anything is stored in it, so whether every
key is a text comes down to whether such a place can be read too early. A name
is bound by an assignment before the value is evaluated, and then its place can
be read by the value itself. -/
namespace ScriptMachine

/-- The value may stand in a place of the type; null for a text only where `loose` says so. -/
def Value.Held (loose : Prop) (v : Value) (type : StaticType) : Prop :=
  v.fits type = true ∧ (type = .string → v = .null → loose)

theorem Value.Inhabits.held {v : Value} {type : StaticType} (inhabits : v.Inhabits type)
    (loose : Prop) : v.Held loose type :=
  ⟨inhabits.1,fun text null => absurd null (inhabits.2 text)⟩

theorem Value.Held.object {loose : Prop} {v : Value} {type : StaticType}
    (held : v.Held loose type) (reference : type.isValueType = false) : v.isRaw = false :=
  (fitsRaw held.1).trans reference

theorem Value.Held.anyArray {loose : Prop} {v : Value} {element other : StaticType}
    (held : v.Held loose (.array element)) : v.Held loose (.array other) := by
  refine ⟨?_,fun impossible => by cases impossible⟩
  have fits := held.1
  cases v <;> first | rfl | cases fits

theorem Value.Held.text {loose : Prop} {v : Value} (held : v.Held loose .string) :
    (∃ text, v = .string text) ∨ (v = .null ∧ loose) := by
  cases v with
  | string text => exact .inl ⟨text,rfl⟩
  | null => exact .inr ⟨rfl,held.2 rfl rfl⟩
  | int | long | decimal | bool | boxed | array | store => cases held.1

theorem initialHeld {type : StaticType} (solid : type ≠ .void) :
    type.initial.Held (type = .string) type :=
  ⟨StaticType.initialFits solid,fun text _ => text⟩

theorem Store.getHeld {store : Store} (objects : store.HoldsObjects) (key : String)
    (loose : Prop) : (store.get key).Held loose .object := by
  have typed := getTyped (fun _ : True => objects) key
  exact (typed.inhabits trivial).held loose

inductive Stacked (loose : Prop) : List Kind → List Value → Prop where
  | nil : Stacked loose [] []
  | value {type v kinds stack} (held : v.Held loose type) (rest : Stacked loose kinds stack) :
      Stacked loose (.value type :: kinds) (v :: stack)
  | store {kinds stack} (rest : Stacked loose kinds stack) :
      Stacked loose (.store :: kinds) (.store :: stack)
  | building {element id kinds stack} (rest : Stacked loose kinds stack) :
      Stacked loose (.building element :: kinds) (.array id :: stack)
  | target {element id kinds stack} (rest : Stacked loose kinds stack) :
      Stacked loose (.target element :: kinds) (.array id :: stack)

structure Tidy (loose : Prop) (method : CompiledMethod) (a : Stage) (m : Machine) : Prop where
  stack : Stacked loose a.stack m.stack
  bound : ∀ slot entry, slot < a.bound → method.locals[slot]? = some entry →
    ∃ v, m.locals[slot]? = some v ∧ v.Held loose entry.type
  free : ∀ slot entry, a.bound ≤ slot → method.locals[slot]? = some entry →
    m.locals[slot]? = some entry.type.initial
  objects : m.context.store.HoldsObjects

namespace Tidy
variable {loose : Prop} {method : CompiledMethod} {a : Stage} {m : Machine}

theorem restack (tidy : Tidy loose method a m) {kinds : List Kind} {stack : List Value}
    (stacked : Stacked loose kinds stack) :
    Tidy loose method ⟨a.bound,kinds⟩ (m.withStack stack) :=
  ⟨stacked,tidy.bound,tidy.free,tidy.objects⟩

theorem bindInitial (tidy : Tidy loose method a m) {entry : Local}
    (slotted : method.locals[a.bound]? = some entry) (held : entry.type.initial.Held loose entry.type) :
    Tidy loose method ⟨a.bound + 1,a.stack⟩ m := by
  refine ⟨tidy.stack,?_,?_,tidy.objects⟩
  · intro slot other below found
    rcases Nat.lt_succ_iff_lt_or_eq.mp below with earlier | rfl
    · exact tidy.bound slot other earlier found
    · have same := slotted.symm.trans found
      cases same
      exact ⟨_,tidy.free a.bound entry (Nat.le_refl _) slotted,held⟩
  · intro slot other above found
    exact tidy.free slot other (Nat.le_of_succ_le above) found

theorem store (tidy : Tidy loose method a m) {slot next : Nat} {entry : Local} {v : Value}
    (slotted : method.locals[slot]? = some entry) (held : v.Held loose entry.type)
    (known : slot < a.bound ∧ next = a.bound ∨ slot = a.bound ∧ next = a.bound + 1) :
    Tidy loose method ⟨next,a.stack⟩ (m.withLocal slot v) := by
  have inside : slot < m.locals.length := by
    rcases known with ⟨ready,_⟩ | ⟨rfl,_⟩
    · obtain ⟨w,there,_⟩ := tidy.bound slot entry ready slotted
      exact (List.getElem?_eq_some_iff.mp there).1
    · have there := tidy.free a.bound entry (Nat.le_refl _) slotted
      exact (List.getElem?_eq_some_iff.mp there).1
  refine ⟨tidy.stack,?_,?_,tidy.objects⟩
  · intro other found (below : other < next) declared
    simp only [Machine.withLocal]
    by_cases same : slot = other
    · subst same
      rw [slotted] at declared
      cases declared
      exact ⟨v,List.getElem?_set_self inside,held⟩
    · rw [List.getElem?_set_ne same]
      exact tidy.bound other found (by omega) declared
  · intro other found (above : next ≤ other) declared
    simp only [Machine.withLocal]
    rw [List.getElem?_set_ne (by omega)]
    exact tidy.free other found (by omega) declared

theorem adjusting {implicit : StaticType} (solid : implicit ≠ .void) {b : Stage}
    (adjusts : Adjusts method implicit a b) (tidy : Tidy (implicit = .string) method a m) :
    Tidy (implicit = .string) method b m := by
  obtain ⟨locals,stack,context⟩ := m
  have stacked := tidy.stack
  cases adjusts with
  | bind slotted typed =>
    subst typed
    exact tidy.bindInitial slotted (initialHeld solid)
  | publish =>
    cases stacked with
    | building below => exact tidy.restack (.value ((Value.arrayInhabits _ _).held _) below)
  | asObject reference =>
    cases stacked with
    | value held below =>
      exact tidy.restack (.value ((Value.Inhabits.ofObject (held.object reference)).held _) below)
  | asObjects =>
    cases stacked with
    | value held below => exact tidy.restack (.value held.anyArray below)

section Opcodes
variable {setting : Setting} {bound : Nat} {kinds : List Kind} {type element : StaticType}
variable {operand : Option Operand} {next : Machine}

theorem copying (tidy : Tidy loose setting.method ⟨bound,.value type :: kinds⟩ m)
    (moves : Moves setting m ⟨.dup,operand⟩ next) :
    Tidy loose setting.method ⟨bound,.value type :: .value type :: kinds⟩ next := by
  have stacked := tidy.stack
  cases moves with
  | dup operand top =>
    rw [top] at stacked ⊢
    cases stacked with
    | value held below => exact tidy.restack (.value held (.value held below))

theorem copyingBuilt (tidy : Tidy loose setting.method ⟨bound,.building element :: kinds⟩ m)
    (moves : Moves setting m ⟨.dup,operand⟩ next) :
    Tidy loose setting.method ⟨bound,.target element :: .building element :: kinds⟩ next := by
  have stacked := tidy.stack
  cases moves with
  | dup operand top =>
    rw [top] at stacked ⊢
    cases stacked with
    | building below => exact tidy.restack (.target (.building below))

theorem loadingLocal {slot : Nat} {entry : Local} (ready : slot < bound)
    (slotted : setting.method.locals[slot]? = some entry)
    (tidy : Tidy loose setting.method ⟨bound,kinds⟩ m)
    (moves : Moves setting m (.loadLocal slot) next) :
    Tidy loose setting.method ⟨bound,.value entry.type :: kinds⟩ next := by
  cases moves with
  | loadLocal slot found =>
    obtain ⟨w,there,held⟩ := tidy.bound _ _ ready slotted
    cases found.symm.trans there
    exact tidy.restack (.value held tidy.stack)

theorem storingLocal {slot after : Nat} {entry : Local}
    (slotted : setting.method.locals[slot]? = some entry)
    (known : slot < bound ∧ after = bound ∨ slot = bound ∧ after = bound + 1)
    (tidy : Tidy loose setting.method ⟨bound,.value entry.type :: kinds⟩ m)
    (moves : Moves setting m (.storeLocal slot) next) :
    Tidy loose setting.method ⟨after,kinds⟩ next := by
  have stacked := tidy.stack
  cases moves with
  | storeLocal slot top declared fits =>
    rw [top] at stacked
    cases stacked with
    | value held below => exact (tidy.restack below).store slotted held known

theorem gettingStored (tidy : Tidy loose setting.method ⟨bound,.value type :: .store :: kinds⟩ m)
    (moves : Moves setting m (.call .storeGet) next) :
    Tidy loose setting.method ⟨bound,.value .object :: kinds⟩ next := by
  have stacked := tidy.stack
  cases moves with
  | storeGet top =>
    rw [top] at stacked
    cases stacked with
    | value held below =>
      cases below with
      | store below => exact tidy.restack (.value (Store.getHeld tidy.objects _ loose) below)

theorem settingStored {key : StaticType}
    (tidy : Tidy loose setting.method ⟨bound,.value type :: .value key :: .store :: kinds⟩ m)
    (moves : Moves setting m (.call .storeSet) next) :
    Tidy loose setting.method ⟨bound,.value type :: kinds⟩ next := by
  have stacked := tidy.stack
  cases moves with
  | storeSet top object =>
    rw [top] at stacked
    cases stacked with
    | value held below =>
      cases below with
      | value keyHeld below =>
        cases below with
        | store below =>
          exact ⟨.value held below,tidy.bound,tidy.free,Store.setObjects tidy.objects _ object⟩

theorem reading {index : Nat} (tidy : Tidy loose setting.method ⟨bound,kinds⟩ m)
    (moves : Moves setting m (.callGetter index) next) :
    Tidy loose setting.method ⟨bound,.value .object :: kinds⟩ next := by
  cases moves with
  | readNothing index known unread =>
    exact tidy.restack (.value ((Value.Inhabits.ofObject rfl).held loose) tidy.stack)
  | read index known answered =>
    have inhabits := Property.readInhabits answered
    exact ⟨.value (inhabits.held loose) tidy.stack,tidy.bound,tidy.free,tidy.objects⟩

theorem writing {index : Nat} (tidy : Tidy loose setting.method ⟨bound,.value type :: kinds⟩ m)
    (moves : Moves setting m (.callSetter index) next) :
    Tidy loose setting.method ⟨bound,kinds⟩ next := by
  have stacked := tidy.stack
  cases moves with
  | wrote index known top written =>
    rw [top] at stacked
    cases stacked with
    | value held below => exact ⟨below,tidy.bound,tidy.free,tidy.objects⟩

theorem makingArray (tidy : Tidy loose setting.method ⟨bound,.value type :: kinds⟩ m)
    (moves : Moves setting m (.newArray element) next) :
    Tidy loose setting.method ⟨bound,.building element :: kinds⟩ next := by
  have stacked := tidy.stack
  cases moves with
  | newArray element top natural =>
    rw [top] at stacked
    cases stacked with
    | value held below => exact ⟨.building below,tidy.bound,tidy.free,tidy.objects⟩

theorem storingElement {index : StaticType}
    (tidy : Tidy loose setting.method
      ⟨bound,.value type :: .value index :: .target element :: .building element :: kinds⟩ m)
    (moves : Moves setting m ⟨.storeElement,operand⟩ next) :
    Tidy loose setting.method ⟨bound,.building element :: kinds⟩ next := by
  have stacked := tidy.stack
  cases moves with
  | storeElement operand top known fits =>
    rw [top] at stacked
    cases stacked with
    | value held below =>
      cases below with
      | value indexHeld below =>
        cases below with
        | target below => exact ⟨below,tidy.bound,tidy.free,tidy.objects⟩

end Opcodes

theorem stepping {setting : Setting} {offset : Nat} {i : Instruction} {b : Stage} {next : Machine}
    (does : Does setting.method i a b) (tidy : Tidy loose setting.method a m)
    (stepped : (step setting offset i).run m = .ok () next) :
    Tidy loose setting.method b next := by
  have moves := stepMoves stepped
  have stacked := tidy.stack
  cases does with
  | pushConst c =>
    cases moves
    exact tidy.restack (.value ((Value.constantInhabits c).held loose) stacked)
  | pushNull =>
    cases moves
    exact tidy.restack (.value ((Value.Inhabits.ofObject rfl).held loose) stacked)
  | pop =>
    cases moves with
    | pop operand top =>
      rw [top] at stacked
      cases stacked with
      | value held below => exact tidy.restack below
  | dup => exact tidy.copying moves
  | dupBuilding => exact tidy.copyingBuilt moves
  | box valueType =>
    cases moves with
    | box operand top raw =>
      rw [top] at stacked
      cases stacked with
      | value held below =>
        exact tidy.restack (.value ((Value.Inhabits.ofObject rfl).held loose) below)
  | loadLocal ready slotted => exact tidy.loadingLocal ready slotted moves
  | storeLocal ready slotted => exact tidy.storingLocal slotted (.inl ⟨ready,rfl⟩) moves
  | declareLocal slotted => exact tidy.storingLocal slotted (.inr ⟨rfl,rfl⟩) moves
  | loadArgument index =>
    cases moves
    exact tidy.restack (.value ((Value.arrayInhabits _ _).held loose) stacked)
  | loadStore =>
    cases moves
    exact tidy.restack (.store stacked)
  | force target reference =>
    cases moves with
    | force target top object =>
      rw [top] at stacked
      cases stacked with
      | value held below =>
        exact tidy.restack (.value ((Value.convertInhabits _ target).held loose) below)
  | storeGet => exact tidy.gettingStored moves
  | storeSet => exact tidy.settingStored moves
  | callGetter index => exact tidy.reading moves
  | callSetter index => exact tidy.writing moves
  | newArray element => exact tidy.makingArray moves
  | storeElement => exact tidy.storingElement moves

theorem kept {setting : Setting} {implicit : StaticType} (solid : implicit ≠ .void) :
    Kept setting implicit fun _ a m => Tidy (implicit = .string) setting.method a m :=
  ⟨adjusting solid,fun _ => stepping⟩

end Tidy

def Intrinsic.keyDepth? : Intrinsic → Option Nat
  | .storeGet => some 0
  | .storeSet => some 1
  | .force _ => none

inductive TakesKey (loose : Prop) : Intrinsic → List Value → Value → Prop where
  | reading {key rest} (held : key.Held loose .string) :
      TakesKey loose .storeGet (key :: .store :: rest) key
  | writing {v key rest} (object : v.isRaw = false) (held : key.Held loose .string) :
      TakesKey loose .storeSet (v :: key :: .store :: rest) key

theorem Stacked.takesKey {loose : Prop} {method : CompiledMethod} {routine : Intrinsic}
    {depth : Nat} {a b : Stage} {stack : List Value} (does : Does method (.call routine) a b)
    (keyed : routine.keyDepth? = some depth) (stacked : Stacked loose a.stack stack) :
    ∃ key, stack[depth]? = some key ∧ TakesKey loose routine stack key := by
  cases does with
  | force => cases keyed
  | storeGet =>
    cases keyed
    cases stacked with
    | value held below =>
      cases below with
      | store below => exact ⟨_,rfl,.reading held⟩
  | storeSet =>
    cases keyed
    cases stacked with
    | value held below =>
      cases below with
      | value keyHeld below =>
        cases below with
        | store below => exact ⟨_,rfl,.writing (held.object rfl) keyHeld⟩

namespace TakesKey
variable {loose : Prop} {setting : Setting} {offset : Nat} {routine : Intrinsic} {m : Machine}

theorem held {stack : List Value} {key : Value} (takes : TakesKey loose routine stack key) :
    key.Held loose .string := by
  cases takes with
  | reading held => exact held
  | writing object held => exact held

theorem textTaken {text : String} (takes : TakesKey loose routine m.stack (.string text))
    (room : m.stack.length ≤ setting.limit) :
    ∃ next, (step setting offset (.call routine)).run m = .ok () next := by
  obtain ⟨locals,stack,context⟩ := m
  cases takes with
  | reading held => exact ⟨_,(storeGetStep rfl room).passes rfl⟩
  | writing object held => exact ⟨_,(storeSetStep rfl room).passes ⟨object,rfl⟩⟩

theorem nullRefused (takes : TakesKey loose routine m.stack .null) :
    ∃ left, (step setting offset (.call routine)).run m =
      .error (.typeMismatch "string" .null offset) left := by
  obtain ⟨locals,stack,context⟩ := m
  cases takes with
  | reading held => exact ⟨_,rfl⟩
  | @writing v key rest object held =>
    have refused : context.store.assign .store .null v offset =
        .error (.typeMismatch "string" .null offset) := by
      simp only [Store.assign,expectStore,expectObject,object,bind,Except.bind]
      rfl
    have stepped : (step setting offset (.call .storeSet)).run
        ⟨locals,v :: .null :: .store :: rest,context⟩ =
        (MonadExcept.ofExcept (context.store.assign .store .null v offset) >>= fun store =>
          set (⟨locals,rest,{ context with store := store }⟩ : Machine) >>= fun _ =>
            MachineM.push setting.limit offset v : MachineM Unit).run ⟨locals,rest,context⟩ := rfl
    rw [stepped,refused]
    exact ⟨_,rfl⟩

end TakesKey

theorem startTidy (method : CompiledMethod) (arguments : List Value) {context : Context}
    (objects : context.store.HoldsObjects) (loose : Prop) :
    Tidy loose method ⟨0,[]⟩ (method.start arguments context) := by
  refine ⟨.nil,?_,?_,objects⟩
  · intro slot entry below
    cases below
  · intro slot entry above found
    simp [CompiledMethod.start,CompiledMethod.initialLocals,found]

def AtEveryKey (options : CompileOptions) (required : Value → StepResult → Prop) : Prop :=
  ∀ (host : Host) (lookup : Lookup) (method : Method) (queries : Nat) (compiled : CompiledMethod),
    (compileMethod ⟨lookup,options⟩ method queries).1 = .ok compiled →
  ∀ (limit : Nat) (arguments : List Value) (context : Context), context.store.HoldsObjects →
  ∀ (n : Nat) (routine : Intrinsic) (depth : Nat) (m : Machine),
    compiled.listing.instructions[n]? = some (.call routine) →
    routine.keyDepth? = some depth → compiled.Reaches host limit arguments context n m →
    ∃ key, m.stack[depth]? = some key ∧
      required key ((step (compiled.setting host limit context) n (.call routine)).run m)

theorem keysTaken {options : CompileOptions} (solid : options.implicitType ≠ .void) :
    AtEveryKey options fun key outcome =>
      (∃ text next, key = .string text ∧ outcome = .ok () next) ∨
      options.implicitType = .string ∧ key = .null ∧
        ∃ offset left, outcome = .error (.typeMismatch "string" .null offset) left := by
  intro host lookup method queries compiled ok limit arguments context objects n routine depth m
    found keyed reached
  obtain ⟨last,flows⟩ := methodFlows ok
  have kept : Kept (compiled.setting host limit context) options.implicitType
      fun _ a m => Tidy (options.implicitType = .string) compiled a m := Tidy.kept solid
  obtain ⟨a,b,tidy,does⟩ := kept.before flows rfl (startTidy compiled arguments objects _) found reached
  obtain ⟨key,there,takes⟩ := tidy.stack.takesKey does keyed
  have room := compiled.pointRoom host limit arguments context n
  rw [CompiledMethod.point,reached] at room
  refine ⟨key,there,?_⟩
  rcases takes.held.text with ⟨text,rfl⟩ | ⟨rfl,loose⟩
  · obtain ⟨next,stepped⟩ : ∃ next,
        (step (compiled.setting host limit context) n (.call routine)).run m = .ok () next :=
      takes.textTaken room
    exact .inl ⟨text,next,rfl,stepped⟩
  · obtain ⟨left,refused⟩ := takes.nullRefused
    exact .inr ⟨loose,rfl,n,left,refused⟩

def readsItself : Method :=
  ⟨"main",[.assign (.localRef "x" .start) (.indexed (.null .start) (.localRef "x" .start) .start)
    .start],.start⟩

theorem unboundKeyRefused (recordsLines : Bool) :
    ∃ compiled m left,
      (compileMethod ⟨⟨{},none⟩,⟨.string,recordsLines⟩⟩ readsItself 0).1 = .ok compiled ∧
      compiled.listing.instructions[2]? = some (.call .storeGet) ∧
      compiled.Reaches CompiledMethod.quietHost 2 [] {} 2 m ∧ m.stack = [.null,.store] ∧
      (step (compiled.setting CompiledMethod.quietHost 2 {}) 2 (.call .storeGet)).run m =
        .error (.typeMismatch "string" .null 2) left := by
  cases recordsLines <;> exact ⟨_,_,_,rfl,rfl,rfl,rfl,rfl⟩

theorem keysAreTextUnlessUnbound {options : CompileOptions} (solid : options.implicitType ≠ .void) :
    ((AtEveryKey options fun key outcome =>
        ∃ text next, key = .string text ∧ outcome = .ok () next) ↔
      options.implicitType ≠ .string) ∧
    AtEveryKey options fun key outcome =>
      (∃ text next, key = .string text ∧ outcome = .ok () next) ∨
      options.implicitType = .string ∧ key = .null ∧
        ∃ offset left, outcome = .error (.typeMismatch "string" .null offset) left := by
  refine ⟨⟨?_,?_⟩,keysTaken solid⟩
  · rintro texts text
    obtain ⟨implicit,recordsLines⟩ := options
    cases text
    obtain ⟨compiled,m,left,ok,found,reached,stack,refused⟩ := unboundKeyRefused recordsLines
    obtain ⟨key,there,name,next,rfl,stepped⟩ := texts CompiledMethod.quietHost _ _ _ _ ok 2 [] {}
      Store.emptyObjects 2 .storeGet 0 m found rfl reached
    rw [stack] at there
    cases there
  · intro other host lookup method queries compiled ok limit arguments context objects n routine
      depth m found keyed reached
    obtain ⟨key,there,taken⟩ := keysTaken solid host lookup method queries compiled ok limit
      arguments context objects n routine depth m found keyed reached
    rcases taken with text | ⟨text,_⟩
    · exact ⟨key,there,text⟩
    · exact absurd text other

theorem numberKeyIsText :
    ({} : CompileOptions).implicitType ≠ .void ∧ ∃ compiled m text next,
      (compileMethod ⟨⟨{},none⟩,{}⟩ readsItself 0).1 = .ok compiled ∧
      compiled.Reaches CompiledMethod.quietHost 2 [] {} 4 m ∧ m.stack = [.string text,.store] ∧
      (step (compiled.setting CompiledMethod.quietHost 2 {}) 4 (.call .storeGet)).run m =
        .ok () next := by
  have texts : AtEveryKey {} fun key outcome =>
      ∃ text next, key = .string text ∧ outcome = .ok () next :=
    (keysAreTextUnlessUnbound StaticType.noConfusion).1.mpr StaticType.noConfusion
  obtain ⟨compiled,m,ok,found,reached,stack⟩ : ∃ compiled m,
      (compileMethod ⟨⟨{},none⟩,{}⟩ readsItself 0).1 = .ok compiled ∧
      compiled.listing.instructions[4]? = some (.call .storeGet) ∧
      compiled.Reaches CompiledMethod.quietHost 2 [] {} 4 m ∧ m.stack = [.string "0",.store] :=
    ⟨_,_,rfl,rfl,rfl,rfl⟩
  obtain ⟨key,there,text,next,same,stepped⟩ := texts CompiledMethod.quietHost _ readsItself 0
    compiled ok 2 [] {} Store.emptyObjects 4 .storeGet 0 m found rfl reached
  exact ⟨StaticType.noConfusion,compiled,m,"0",next,ok,reached,stack,stepped⟩

theorem readsItselfStops :
    ∃ compiled left,
      (compileMethod ⟨⟨{},none⟩,{ implicitType := .string }⟩ readsItself 0).1 = .ok compiled ∧
      (execute CompiledMethod.quietHost 2 compiled []).run {} =
        .error (.typeMismatch "string" .null 2) left :=
  ⟨_,_,rfl,rfl⟩

end ScriptMachine
