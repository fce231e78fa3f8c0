import ScriptMachine.Proofs.Emission
/-! Rules for methods that can be compiled. They go through a method in the order
of its text with a table of names that grows, and know nothing of code. One set
of rules says that a tree passes, with its type and what is known behind it; the
other says what its first violation is. No tree does both, or either in two ways. -/
namespace ScriptMachine

structure Known where
  names : List Local := []
  asked : Nat := 0
  deriving DecidableEq, Repr

namespace Known

def find? (k : Known) (name : String) : Option Local :=
  k.names.find? fun entry => entry.name = name

def bind (k : Known) (name : String) (type : StaticType) (span : Span) : Known :=
  { k with names := k.names ++ [⟨name,type,span⟩] }

def bindFree (k : Known) (name : String) (type : StaticType) (span : Span) : Known :=
  if (k.find? name).isSome then k else k.bind name type span

def asking (k : Known) : Known :=
  { k with asked := k.asked + 1 }

end Known

def Converts (source wanted : StaticType) : Prop :=
  source = wanted ∨ wanted ∈ [.string,.decimal,.long,.int,.bool,.object] ∨
    wanted = .array .object ∧ source.isArray = true

def Expr.isAssignable : Expr → Bool
  | localRef .. | indexed .. | property .. => true
  | constant .. | null .. | argument .. | arrayOf .. | assign .. => false

section Rules
variable (setup : CompileSetup)

mutual
inductive Passes : Known → Expr → StaticType → Known → Prop where
  | constant {k} (c span) : Passes k (.constant c span) c.type k
  | null {k} (span) : Passes k (.null span) .object k
  | localRef {k name entry} (span) (bound : k.find? name = some entry) :
      Passes k (.localRef name span) entry.type k
  | argument {k} (index span) : Passes k (.argument index span) (.array .object) k
  | indexed {k key after} (base span) (checked : PassesAs k key .string after) :
      Passes k (.indexed base key span) .object after
  | property {k} (name span) : Passes k (.property name span) .object k.asking
  | arrayOf {k name element items after} (span)
      (named : StaticType.ofName? name = some element)
      (few : items.length ≤ CompileM.initializerLimit)
      (filled : PassesAll k items element after) :
      Passes k (.arrayOf name items span) (.array element) after
  | assignLocal {k name place entry value after} (span)
      (slot : (k.bindFree name setup.options.implicitType place).find? name = some entry)
      (checked : PassesAs (k.bindFree name setup.options.implicitType place) value entry.type
        after) :
      Passes k (.assign (.localRef name place) value span) entry.type after
  | assignStored {k key middle value after} (base place span)
      (keyed : PassesAs k key .string middle) (checked : PassesAs middle value .object after) :
      Passes k (.assign (.indexed base key place) value span) .object after
  | assignProperty {k name value after} (place span)
      (written : setup.lookup.resolveSetter k.asked name ≠ none)
      (checked : PassesAs k.asking value .object after) :
      Passes k (.assign (.property name place) value span) .object after
  -- the value of an assignment that does nothing is not looked at
  | skipProperty {k name} (place value span)
      (unwritten : setup.lookup.resolveSetter k.asked name = none) :
      Passes k (.assign (.property name place) value span) .object k.asking

inductive PassesAs : Known → Expr → StaticType → Known → Prop where
  | converted {k e source wanted after} (passes : Passes k e source after)
      (converts : Converts source wanted) : PassesAs k e wanted after

inductive PassesAll : Known → List Expr → StaticType → Known → Prop where
  | nil {k} (element) : PassesAll k [] element k
  | cons {k item middle items element after} (first : PassesAs k item element middle)
      (rest : PassesAll middle items element after) : PassesAll k (item :: items) element after
end

mutual
inductive Violates : Known → Expr → CompileError → Prop where
  | unbound {k name} (span) (free : k.find? name = none) :
      Violates k (.localRef name span) (.undefinedVariable name span)
  | indexed {k key e} (base span) (fault : ViolatesAs k key .string e) :
      Violates k (.indexed base key span) e
  | unknownType {k name} (items span) (unknown : StaticType.ofName? name = none) :
      Violates k (.arrayOf name items span) (.unknownType name span)
  | tooMany {k name element items} (span) (named : StaticType.ofName? name = some element)
      (many : CompileM.initializerLimit < items.length) :
      Violates k (.arrayOf name items span)
        (.limitExceeded .arrayInitializers CompileM.initializerLimit span)
  | arrayOf {k name element items e} (span) (named : StaticType.ofName? name = some element)
      (few : items.length ≤ CompileM.initializerLimit)
      (fault : ViolatesAll k items element e) : Violates k (.arrayOf name items span) e
  | assignLocal {k name place entry value e} (span)
      (slot : (k.bindFree name setup.options.implicitType place).find? name = some entry)
      (fault : ViolatesAs (k.bindFree name setup.options.implicitType place) value entry.type e) :
      Violates k (.assign (.localRef name place) value span) e
  | assignedKey {k key e} (base place value span) (fault : ViolatesAs k key .string e) :
      Violates k (.assign (.indexed base key place) value span) e
  | assignStored {k key middle value e} (base place span) (keyed : PassesAs setup k key .string middle)
      (fault : ViolatesAs middle value .object e) :
      Violates k (.assign (.indexed base key place) value span) e
  | assignProperty {k name value e} (place span)
      (written : setup.lookup.resolveSetter k.asked name ≠ none)
      (fault : ViolatesAs k.asking value .object e) :
      Violates k (.assign (.property name place) value span) e
  | unassignable {k target} (value span) (refused : target.isAssignable = false) :
      Violates k (.assign target value span) (.unassignableTarget target.kind target.span)

inductive ViolatesAs : Known → Expr → StaticType → CompileError → Prop where
  | inside {k expr e} (wanted) (fault : Violates k expr e) : ViolatesAs k expr wanted e
  | unconverted {k expr source wanted after} (passes : Passes setup k expr source after)
      (refused : ¬ Converts source wanted) :
      ViolatesAs k expr wanted (.unresolvedCoercion source wanted expr.span)

inductive ViolatesAll : Known → List Expr → StaticType → CompileError → Prop where
  | first {k item element e} (items) (fault : ViolatesAs k item element e) :
      ViolatesAll k (item :: items) element e
  | later {k item middle items element e} (first : PassesAs setup k item element middle)
      (fault : ViolatesAll middle items element e) : ViolatesAll k (item :: items) element e
end

inductive StmtPasses : Known → Stmt → Known → Prop where
  | declare {k name init type middle} (span) (initial : Passes setup k init type middle)
      (free : middle.find? name = none) :
      StmtPasses k (.declare name init span) (middle.bind name type span)
  | assign {k target value span type after}
      (checked : Passes setup k (.assign target value span) type after) :
      StmtPasses k (.assign target value span) after
  | evaluate {k e type after} (span) (checked : Passes setup k e type after) :
      StmtPasses k (.evaluate e span) after

inductive StmtViolates : Known → Stmt → CompileError → Prop where
  | initial {k init e} (name span) (fault : Violates setup k init e) :
      StmtViolates k (.declare name init span) e
  | duplicate {k name init type middle first} (span) (initial : Passes setup k init type middle)
      (taken : middle.find? name = some first) :
      StmtViolates k (.declare name init span) (.duplicateDeclaration name first.span span)
  | assign {k target value span e} (fault : Violates setup k (.assign target value span) e) :
      StmtViolates k (.assign target value span) e
  | evaluate {k expr e} (span) (fault : Violates setup k expr e) :
      StmtViolates k (.evaluate expr span) e

inductive BodyPasses : Known → List Stmt → Known → Prop where
  | nil (k) : BodyPasses k [] k
  | cons {k stmt middle rest after} (first : StmtPasses setup k stmt middle)
      (later : BodyPasses middle rest after) : BodyPasses k (stmt :: rest) after

inductive BodyViolates : Known → List Stmt → CompileError → Prop where
  | first {k stmt e} (rest) (fault : StmtViolates setup k stmt e) : BodyViolates k (stmt :: rest) e
  | later {k stmt middle rest e} (first : StmtPasses setup k stmt middle)
      (fault : BodyViolates middle rest e) : BodyViolates k (stmt :: rest) e

end Rules

structure Exclusive (passes : Known → Known → Prop) (violates : Known → CompileError → Prop) :
    Prop where
  unique : ∀ {k middle after}, passes k middle → passes k after → middle = after
  apart : ∀ {k after e}, passes k after → violates k e → False
  first : ∀ {k e other}, violates k e → violates k other → e = other

theorem Exclusive.sequence {first second passes : Known → Known → Prop}
    {early late violates : Known → CompileError → Prop} (left : Exclusive first early)
    (right : Exclusive second late)
    (both : ∀ {k after}, passes k after → ∃ middle, first k middle ∧ second middle after)
    (either : ∀ {k e}, violates k e → early k e ∨ ∃ middle, first k middle ∧ late middle e) :
    Exclusive passes violates := by
  constructor
  · intro k middle after passed others
    obtain ⟨m,one,two⟩ := both passed
    obtain ⟨n,same,again⟩ := both others
    obtain rfl := left.unique one same
    exact right.unique two again
  · intro k after e passed fault
    obtain ⟨m,one,two⟩ := both passed
    rcases either fault with fault | ⟨n,same,fault⟩
    · exact left.apart one fault
    · obtain rfl := left.unique one same
      exact right.apart two fault
  · intro k e other fault others
    rcases either fault with fault | ⟨m,one,fault⟩ <;>
      rcases either others with again | ⟨n,same,again⟩
    · exact left.first fault again
    · exact (left.apart same fault).elim
    · exact (left.apart one again).elim
    · obtain rfl := left.unique one same
      exact right.first fault again

section Uniqueness
variable (setup : CompileSetup)

structure Expr.Exclusive (e : Expr) : Prop where
  unique : ∀ {k source other middle after}, Passes setup k e source middle →
    Passes setup k e other after → source = other ∧ middle = after
  apart : ∀ {k source after fault}, Passes setup k e source after → Violates setup k e fault →
    False
  first : ∀ {k fault other}, Violates setup k e fault → Violates setup k e other → fault = other

def Expr.ExclusiveAs (e : Expr) (wanted : StaticType) : Prop :=
  ScriptMachine.Exclusive (fun k after => PassesAs setup k e wanted after)
    fun k fault => ViolatesAs setup k e wanted fault

def ItemsExclusive (element : StaticType) (items : List Expr) : Prop :=
  ScriptMachine.Exclusive (fun k after => PassesAll setup k items element after)
    fun k fault => ViolatesAll setup k items element fault

variable {setup} {key value item : Expr} {items : List Expr}

theorem Expr.Exclusive.converted {e : Expr} (exclusive : e.Exclusive setup) (wanted : StaticType) :
    e.ExclusiveAs setup wanted := by
  constructor
  · rintro k middle after ⟨passes,converts⟩ ⟨others,_⟩
    exact (exclusive.unique passes others).2
  · rintro k after fault ⟨passes,converts⟩ violates
    cases violates with
    | inside _ violates => exact exclusive.apart passes violates
    | unconverted others refused =>
      obtain ⟨rfl,_⟩ := exclusive.unique passes others
      exact refused converts
  · intro k fault other violates others
    cases violates with
    | inside _ violates =>
      cases others with
      | inside _ others => exact exclusive.first violates others
      | unconverted passes refused => exact (exclusive.apart passes violates).elim
    | unconverted passes refused =>
      cases others with
      | inside _ others => exact (exclusive.apart passes others).elim
      | unconverted others refused =>
        obtain ⟨rfl,_⟩ := exclusive.unique passes others
        rfl

theorem Expr.Exclusive.ofType {e : Expr} {type : StaticType}
    (typed : ∀ {k source after}, Passes setup k e source after → source = type)
    (exclusive : ScriptMachine.Exclusive (fun k after => Passes setup k e type after)
      fun k fault => Violates setup k e fault) : e.Exclusive setup := by
  refine ⟨?_,?_,exclusive.first⟩
  · intro k source other middle after passes others
    obtain rfl := typed passes
    obtain rfl := typed others
    exact ⟨rfl,exclusive.unique passes others⟩
  · intro k source after fault passes violates
    obtain rfl := typed passes
    exact exclusive.apart passes violates

namespace Expr

theorem localExclusive (name : String) (span : Span) : (localRef name span).Exclusive setup := by
  constructor
  · intro k source other middle after passes others
    cases passes with
    | localRef _ bound =>
      cases others with
      | localRef _ found =>
        rw [bound] at found
        cases found
        exact ⟨rfl,rfl⟩
  · intro k source after fault passes violates
    cases passes with
    | localRef _ bound =>
      cases violates with
      | unbound _ free =>
        rw [bound] at free
        cases free
  · intro k fault other violates others
    cases violates
    cases others
    rfl

theorem indexedExclusive (base : Expr) (span : Span) (keys : key.ExclusiveAs setup .string) :
    (indexed base key span).Exclusive setup := by
  constructor
  · intro k source other middle after passes others
    cases passes with
    | indexed _ _ checked =>
      cases others with
      | indexed _ _ again => exact ⟨rfl,keys.unique checked again⟩
  · intro k source after fault passes violates
    cases passes with
    | indexed _ _ checked =>
      cases violates with
      | indexed _ _ fault => exact keys.apart checked fault
  · intro k fault other violates others
    cases violates with
    | indexed _ _ fault =>
      cases others with
      | indexed _ _ again => exact keys.first fault again

theorem arrayOfExclusive (name : String) (span : Span)
    (filled : ∀ element, ItemsExclusive setup element items) :
    (arrayOf name items span).Exclusive setup := by
  constructor
  · intro k source other middle after passes others
    cases passes with
    | arrayOf _ named few checked =>
      cases others with
      | arrayOf _ known _ again =>
        rw [named] at known
        cases known
        exact ⟨rfl,(filled _).unique checked again⟩
  · intro k source after fault passes violates
    cases passes with
    | arrayOf _ named few checked =>
      cases violates with
      | unknownType _ _ unknown =>
        rw [named] at unknown
        cases unknown
      | tooMany _ _ many => exact Nat.not_lt.mpr few many
      | arrayOf _ known _ fault =>
        rw [named] at known
        cases known
        exact (filled _).apart checked fault
  · intro k fault other violates others
    cases violates with
    | unknownType _ _ unknown =>
      cases others with
      | unknownType => rfl
      | tooMany _ named | arrayOf _ named =>
        rw [unknown] at named
        cases named
    | tooMany _ named many =>
      cases others with
      | unknownType _ _ unknown =>
        rw [named] at unknown
        cases unknown
      | tooMany => rfl
      | arrayOf _ _ few => exact (Nat.not_lt.mpr few many).elim
    | arrayOf _ named few fault =>
      cases others with
      | unknownType _ _ unknown =>
        rw [named] at unknown
        cases unknown
      | tooMany _ _ many => exact (Nat.not_lt.mpr few many).elim
      | arrayOf _ known _ again =>
        rw [named] at known
        cases known
        exact (filled _).first fault again

theorem assignLocalExclusive (name : String) (place span : Span)
    (values : ∀ wanted, value.ExclusiveAs setup wanted) :
    (assign (localRef name place) value span).Exclusive setup := by
  constructor
  · intro k source other middle after passes others
    cases passes with
    | assignLocal _ slot checked =>
      cases others with
      | assignLocal _ same again =>
        rw [slot] at same
        cases same
        exact ⟨rfl,(values _).unique checked again⟩
  · intro k source after fault passes violates
    cases passes with
    | assignLocal _ slot checked =>
      cases violates with
      | assignLocal _ same fault =>
        rw [slot] at same
        cases same
        exact (values _).apart checked fault
      | unassignable _ _ refused => cases refused
  · intro k fault other violates others
    cases violates with
    | assignLocal _ slot fault =>
      cases others with
      | assignLocal _ same again =>
        rw [slot] at same
        cases same
        exact (values _).first fault again
      | unassignable _ _ refused => cases refused
    | unassignable _ _ refused => cases refused

theorem assignStoredExclusive (base : Expr) (place span : Span)
    (keys : key.ExclusiveAs setup .string) (values : value.ExclusiveAs setup .object) :
    (assign (indexed base key place) value span).Exclusive setup := by
  refine .ofType (fun passes => by cases passes; rfl) (keys.sequence values ?_ ?_)
  · intro k after passes
    cases passes with
    | assignStored _ _ _ keyed checked => exact ⟨_,keyed,checked⟩
  · intro k fault violates
    cases violates with
    | assignedKey _ _ _ _ fault => exact .inl fault
    | assignStored _ _ _ keyed fault => exact .inr ⟨_,keyed,fault⟩
    | unassignable _ _ refused => cases refused

theorem assignPropertyExclusive (name : String) (place span : Span)
    (values : value.ExclusiveAs setup .object) :
    (assign (property name place) value span).Exclusive setup := by
  constructor
  · intro k source other middle after passes others
    cases passes with
    | assignProperty _ _ written checked =>
      cases others with
      | assignProperty _ _ _ again => exact ⟨rfl,values.unique checked again⟩
      | skipProperty _ _ _ unwritten => exact absurd unwritten written
    | skipProperty _ _ _ unwritten =>
      cases others with
      | assignProperty _ _ written => exact absurd unwritten written
      | skipProperty => exact ⟨rfl,rfl⟩
  · intro k source after fault passes violates
    cases violates with
    | assignProperty _ _ written fault =>
      cases passes with
      | assignProperty _ _ _ checked => exact values.apart checked fault
      | skipProperty _ _ _ unwritten => exact absurd unwritten written
    | unassignable _ _ refused => cases refused
  · intro k fault other violates others
    cases violates with
    | assignProperty _ _ _ fault =>
      cases others with
      | assignProperty _ _ _ again => exact values.first fault again
      | unassignable _ _ refused => cases refused
    | unassignable _ _ refused => cases refused

theorem unassignableExclusive {target : Expr} (value : Expr) (span : Span)
    (refused : target.isAssignable = false) : (assign target value span).Exclusive setup := by
  constructor
  · intro k source other middle after passes others
    cases passes <;> cases refused
  · intro k source after fault passes violates
    cases passes <;> cases refused
  · intro k fault other violates others
    cases violates with
    | unassignable =>
      cases others with
      | unassignable => rfl
      | assignLocal | assignedKey | assignStored | assignProperty => cases refused
    | assignLocal | assignedKey | assignStored | assignProperty => cases refused

theorem itemsConsExclusive {element : StaticType} (first : item.ExclusiveAs setup element)
    (rest : ItemsExclusive setup element items) :
    ItemsExclusive setup element (item :: items) := by
  refine first.sequence rest ?_ ?_
  · rintro k after (_ | ⟨passed,later⟩)
    exact ⟨_,passed,later⟩
  · intro k fault violates
    cases violates with
    | first _ fault => exact .inl fault
    | later passed fault => exact .inr ⟨_,passed,fault⟩

theorem plainExclusive {e : Expr} {type : StaticType} {next : Known → Known}
    (only : ∀ {k source after}, Passes setup k e source after → source = type ∧ after = next k)
    (never : ∀ {k fault}, ¬ Violates setup k e fault) : e.Exclusive setup := by
  constructor
  · intro k source other middle after passes others
    obtain ⟨rfl,rfl⟩ := only passes
    obtain ⟨rfl,rfl⟩ := only others
    exact ⟨rfl,rfl⟩
  · intro k source after fault passes violates
    exact never violates
  · intro k fault other violates others
    exact absurd violates never

theorem exclusive (e : Expr) : e.Exclusive setup := by
  refine compile.induct (Exclusive setup) (fun element _ items => ItemsExclusive setup element items)
    ?constant ?null ?localRef ?argument ?indexed ?property ?arrayOf ?assignLocal ?assignIndexed
    ?assignProperty ?unassignable ?noItems ?moreItems e
  case constant =>
    intro c span
    exact plainExclusive (fun passes => by cases passes; exact ⟨rfl,rfl⟩)
      fun violates => by cases violates
  case null =>
    intro span
    exact plainExclusive (fun passes => by cases passes; exact ⟨rfl,rfl⟩)
      fun violates => by cases violates
  case localRef => exact localExclusive
  case argument =>
    intro index span
    exact plainExclusive (fun passes => by cases passes; exact ⟨rfl,rfl⟩)
      fun violates => by cases violates
  case indexed =>
    intro base key span keys
    exact indexedExclusive base span (keys.converted .string)
  case property =>
    intro name span
    exact plainExclusive (fun passes => by cases passes; exact ⟨rfl,rfl⟩)
      fun violates => by cases violates
  case arrayOf =>
    intro name items span filled
    exact arrayOfExclusive name span filled
  case assignLocal =>
    intro name place value span values
    exact assignLocalExclusive name place span values.converted
  case assignIndexed =>
    intro base key place value span keys values
    exact assignStoredExclusive base place span (keys.converted .string) (values.converted .object)
  case assignProperty =>
    intro name place value span values
    exact assignPropertyExclusive name place span (values.converted .object)
  case unassignable =>
    intro target value span notLocal notIndexed notProperty
    refine unassignableExclusive value span ?_
    cases target with
    | localRef name place => exact (notLocal name place rfl).elim
    | indexed base key place => exact (notIndexed base key place rfl).elim
    | property name place => exact (notProperty name place rfl).elim
    | constant | null | argument | arrayOf | assign => rfl
  case noItems =>
    intro element index
    refine ⟨?_,?_,?_⟩
    · rintro k middle after ⟨⟩ ⟨⟩
      rfl
    · intro k after e passes violates
      cases violates
    · intro k e other violates
      cases violates
  case moreItems =>
    intro element index item items itemExclusive rest
    exact itemsConsExclusive (itemExclusive.converted element) rest

end Expr

theorem Stmt.exclusive (setup : CompileSetup) (stmt : Stmt) :
    Exclusive (fun k after => StmtPasses setup k stmt after)
      fun k fault => StmtViolates setup k stmt fault := by
  constructor
  · intro k middle after passes others
    cases passes with
    | declare _ initial free =>
      cases others with
      | declare _ again =>
        obtain ⟨rfl,rfl⟩ := (Expr.exclusive _).unique initial again
        rfl
    | assign checked =>
      cases others with
      | assign again => exact ((Expr.exclusive _).unique checked again).2
    | evaluate _ checked =>
      cases others with
      | evaluate _ again => exact ((Expr.exclusive _).unique checked again).2
  · intro k after fault passes violates
    cases passes with
    | declare _ initial free =>
      cases violates with
      | initial _ _ fault => exact (Expr.exclusive _).apart initial fault
      | duplicate _ again taken =>
        obtain ⟨rfl,rfl⟩ := (Expr.exclusive _).unique initial again
        rw [free] at taken
        cases taken
    | assign checked =>
      cases violates with
      | assign fault => exact (Expr.exclusive _).apart checked fault
    | evaluate _ checked =>
      cases violates with
      | evaluate _ fault => exact (Expr.exclusive _).apart checked fault
  · intro k fault other violates others
    cases violates with
    | initial _ _ fault =>
      cases others with
      | initial _ _ again => exact (Expr.exclusive _).first fault again
      | duplicate _ initial => exact ((Expr.exclusive _).apart initial fault).elim
    | duplicate _ initial taken =>
      cases others with
      | initial _ _ again => exact ((Expr.exclusive _).apart initial again).elim
      | duplicate _ again same =>
        obtain ⟨rfl,rfl⟩ := (Expr.exclusive _).unique initial again
        rw [taken] at same
        cases same
        rfl
    | assign fault =>
      cases others with
      | assign again => exact (Expr.exclusive _).first fault again
    | evaluate _ fault =>
      cases others with
      | evaluate _ again => exact (Expr.exclusive _).first fault again

theorem bodyExclusive (setup : CompileSetup) (body : List Stmt) :
    Exclusive (fun k after => BodyPasses setup k body after)
      fun k fault => BodyViolates setup k body fault := by
  induction body with
  | nil =>
    refine ⟨?_,?_,?_⟩
    · rintro k middle after ⟨⟩ ⟨⟩
      rfl
    · intro k after e passes violates
      cases violates
    · intro k e other violates
      cases violates
  | cons stmt rest ih =>
    refine (stmt.exclusive setup).sequence ih ?_ ?_
    · rintro k after (_ | ⟨passed,later⟩)
      exact ⟨_,passed,later⟩
    · intro k fault violates
      cases violates with
      | first _ fault => exact .inl fault
      | later passed fault => exact .inr ⟨_,passed,fault⟩

end Uniqueness

end ScriptMachine
