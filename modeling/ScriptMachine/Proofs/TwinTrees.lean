import Mathlib.Data.List.Forall2
import ScriptMachine.Proofs.SideBySide
import ScriptMachine.Proofs.Lowering
/-! Two trees compiled side by side. A contrast says in what the trees may differ,
and how their drafts and their code then compare. One induction shows that both
compile alike or meet the same fault. -/
namespace ScriptMachine

theorem relMap {α β : Type} {r : α → β → Prop} {f : α → β} (each : ∀ a, r a (f a))
    (found : Option α) : Option.Rel r found (found.map f) := by
  cases found with
  | none => exact .none
  | some a => exact .some (each a)

theorem relSame {α : Type} (found : Option α) : Option.Rel Eq found found := by
  cases found with
  | none => exact .none
  | some a => exact .some rfl

inductive Role where
  | value
  | key
  deriving DecidableEq, Repr

/-- A text that is the key itself is a key; any other expression gives a value. -/
def Expr.spot : Expr → Spot
  | constant (.string text) _ => .key (Text.fold text)
  | _ => .value

def Expr.assignable : Expr → Bool
  | localRef _ _ | indexed _ _ _ | property _ _ => true
  | _ => false

/-- What may differ between two trees, and how what is made of them compares. -/
structure Contrast where
  setup : CompileSetup
  other : CompileSetup
  -- names of locals
  names : String → String → Prop
  spans : Span → Span → Prop
  -- names of properties, and the answers to them
  asked : String → String → Prop
  served : Property → Property → Prop
  -- texts that stand as keys
  keys : String → String → Prop
  reads : Spot → Prop
  writes : Spot → Prop
  drafts : Draft → Draft → Prop
  codes : List Spot → List Instruction → List Instruction → List Spot → Prop

structure Binding.Twin (spans : Span → Span → Prop) (b c : Binding) : Prop where
  slot : c.slot = b.slot
  type : c.entry.type = b.entry.type
  span : spans b.entry.span c.entry.span

inductive CompileError.Twin (names : String → String → Prop) (spans : Span → Span → Prop) :
    CompileError → CompileError → Prop where
  | duplicateDeclaration {a b first second s t} (named : names a b) (firsts : spans first second)
      (places : spans s t) :
      Twin names spans (.duplicateDeclaration a first s) (.duplicateDeclaration b second t)
  | undefinedVariable {a b s t} (named : names a b) (places : spans s t) :
      Twin names spans (.undefinedVariable a s) (.undefinedVariable b t)
  | unassignableTarget (kind) {s t} (places : spans s t) :
      Twin names spans (.unassignableTarget kind s) (.unassignableTarget kind t)
  | unknownType (name) {s t} (places : spans s t) :
      Twin names spans (.unknownType name s) (.unknownType name t)
  | limitExceeded (what limit) {s t} (places : spans s t) :
      Twin names spans (.limitExceeded what limit s) (.limitExceeded what limit t)
  | unresolvedCoercion (top wanted) {s t} (places : spans s t) :
      Twin names spans (.unresolvedCoercion top wanted s) (.unresolvedCoercion top wanted t)

namespace Contrast

structure KeepsDrafts (c : Contrast) : Prop where
  implicit : c.other.options.implicitType = c.setup.options.implicitType
  find : ∀ {d e a b}, c.drafts d e → c.names a b →
    Option.Rel (Binding.Twin c.spans) (d.scope.find? a) (e.scope.find? b)
  bind : ∀ {d e a b s t} type, c.drafts d e → c.names a b → c.spans s t →
    (d.scope.bind a type s).1.Twin c.spans (e.scope.bind b type t).1 ∧
      c.drafts { d with scope := (d.scope.bind a type s).2 }
        { e with scope := (e.scope.bind b type t).2 }
  ask : ∀ {d e}, c.drafts d e →
    c.drafts { d with queries := d.queries + 1 } { e with queries := e.queries + 1 }
  getter : ∀ {d e a b}, c.drafts d e → c.asked a b → Option.Rel c.served
    (c.setup.lookup.resolveGetter d.queries a) (c.other.lookup.resolveGetter e.queries b)
  setter : ∀ {d e a b}, c.drafts d e → c.asked a b → Option.Rel c.served
    (c.setup.lookup.resolveSetter d.queries a) (c.other.lookup.resolveSetter e.queries b)
  place : ∀ {d e p q}, c.drafts d e → c.served p q →
    d.accessors.findIdx (·.sharesAccessors p) = e.accessors.findIdx (·.sharesAccessors q)
  sized : ∀ {d e}, c.drafts d e → d.accessors.length = e.accessors.length
  record : ∀ {d e p q}, c.drafts d e → c.served p q →
    c.drafts { d with accessors := d.accessors ++ [p] }
      { e with accessors := e.accessors ++ [q] }

structure KeepsCodes (c : Contrast) : Prop where
  nil : ∀ spots, c.codes spots [] [] spots
  append : ∀ {before middle after code other more others}, c.codes before code other middle →
    c.codes middle more others after → c.codes before (code ++ more) (other ++ others) after
  same : ∀ i spots, i.usesStore = false →
    c.codes (List.replicate i.takes .value ++ spots) [i] [i]
      (List.replicate i.leaves .value ++ spots)
  spelled : ∀ text, c.keys text text
  key : ∀ {a b} spots, c.keys a b → c.codes spots [.pushConst (.string a)]
    [.pushConst (.string b)] (.key (Text.fold a) :: spots)
  read : ∀ {spot} spots, c.reads spot → c.codes (spot :: .value :: spots) [.call .storeGet]
    [.call .storeGet] (.value :: spots)
  write : ∀ {spot} spots, c.writes spot → c.codes (.value :: spot :: .value :: spots)
    [.call .storeSet] [.call .storeSet] (.value :: spots)

structure Keeps (c : Contrast) : Prop extends c.KeepsDrafts, c.KeepsCodes

structure SameCode (c : Contrast) : Prop where
  keys : ∀ a b, c.keys a b ↔ b = a
  codes : ∀ before code other after, c.codes before code other after ↔ other = code

theorem SameCode.keeps {c : Contrast} (same : c.SameCode) : c.KeepsCodes := by
  refine ⟨?_,?_,?_,?_,?_,?_,?_⟩ <;> simp +contextual [same.keys,same.codes]

end Contrast

def Yields (c : Contrast) (spot : Spot) (code other : List Instruction) : Prop :=
  ∀ spots, c.codes spots code other (spot :: spots)

structure Piece.Beside (c : Contrast) (p q : Piece) : Prop where
  type : q.type = p.type
  code : Yields c .value p.code q.code

def Clears (c : Contrast) (code other : List Instruction) : Prop :=
  ∃ left, ∀ spots, c.codes spots code other (List.replicate left .value ++ spots)

structure Piece.AssignedBeside (c : Contrast) (form : AssignForm) (p q : Piece) : Prop where
  used : form = .expression → p.Beside c q
  cleared : Clears c p.discarded q.discarded

section Codes
variable {c : Contrast}

theorem Clears.same {code other : List Instruction} (clears : Clears c code other)
    (same : c.SameCode) : other = code := by
  obtain ⟨left,codes⟩ := clears
  exact (same.codes _ _ _ _).mp (codes [])

theorem Coerces.beside (keeps : c.KeepsCodes) {top wanted : StaticType} {code : List Instruction}
    (coerces : Coerces top wanted code) (spots : List Spot) :
    c.codes (.value :: spots) code code (.value :: spots) := by
  cases coerces with
  | same | object | array => exact keeps.nil _
  | boxed top => exact keeps.same (.box top) spots rfl
  | forced top target => exact keeps.same (.call (.force target)) spots rfl
  | boxedForced top target =>
    exact keeps.append (keeps.same (.box top) spots rfl)
      (keeps.same (.call (.force target)) spots rfl)

namespace Contrast.KeepsCodes
variable (keeps : c.KeepsCodes) {code other key otherKey : List Instruction} {spot : Spot}
include keeps

theorem pushes (i : Instruction) (plain : i.usesStore = false) (takes : i.takes = 0)
    (leaves : i.leaves = 1) : Yields c .value [i] [i] := by
  intro spots
  have pushed := keeps.same i spots plain
  rwa [takes,leaves] at pushed

theorem readAt (keyed : Yields c spot key otherKey) (reads : c.reads spot) :
    Yields c .value (.loadStore :: key ++ [.call .storeGet])
      (.loadStore :: otherKey ++ [.call .storeGet]) := by
  intro spots
  exact keeps.append (keeps.append (keeps.same .loadStore spots rfl) (keyed (.value :: spots)))
    (keeps.read spots reads)

theorem writeAt (keyed : Yields c spot key otherKey) (values : Yields c .value code other)
    (writes : c.writes spot) :
    Yields c .value (.loadStore :: key ++ code ++ [.call .storeSet])
      (.loadStore :: otherKey ++ other ++ [.call .storeSet]) := by
  intro spots
  exact keeps.append (keeps.append (keeps.append (keeps.same .loadStore spots rfl)
    (keyed (.value :: spots))) (values (spot :: .value :: spots))) (keeps.write spots writes)

theorem copied (values : Yields c .value code other) (i : Instruction)
    (plain : i.usesStore = false) (takes : i.takes = 1) (leaves : i.leaves = 0) :
    Yields c .value (code ++ [.dup,i]) (other ++ [.dup,i]) := by
  intro spots
  have taken := keeps.same i (.value :: spots) plain
  rw [takes,leaves] at taken
  exact keeps.append (values spots) (keeps.append (keeps.same .dup spots rfl) taken)

theorem filled (index : Nat) {rest others : List Instruction} (values : Yields c .value code other)
    (fills : ∀ spots, c.codes (.value :: spots) rest others (.value :: spots))
    (spots : List Spot) :
    c.codes (.value :: spots)
      (.dup :: .pushInt (Int32.ofNat index) :: code ++ .storeElement :: rest)
      (.dup :: .pushInt (Int32.ofNat index) :: other ++ .storeElement :: others)
      (.value :: spots) := by
  have begun : c.codes (.value :: spots) [.dup,.pushInt (Int32.ofNat index)]
      [.dup,.pushInt (Int32.ofNat index)] (.value :: .value :: .value :: spots) :=
    keeps.append (keeps.same .dup spots rfl)
      (keeps.same (.pushInt (Int32.ofNat index)) (.value :: .value :: spots) rfl)
  exact keeps.append (keeps.append begun (values (.value :: .value :: .value :: spots)))
    (keeps.append (keeps.same .storeElement (.value :: spots) rfl) (fills spots))

theorem made (count : Nat) (element : StaticType)
    (fills : ∀ spots, c.codes (.value :: spots) code other (.value :: spots)) :
    Yields c .value (.pushInt (Int32.ofNat count) :: .newArray element :: code)
      (.pushInt (Int32.ofNat count) :: .newArray element :: other) := by
  intro spots
  exact keeps.append (keeps.append (keeps.same (.pushInt (Int32.ofNat count)) spots rfl)
    (keeps.same (.newArray element) spots rfl)) (fills spots)

theorem cleared {p q : Piece} (beside : p.Beside c q) : Clears c p.discarded q.discarded := by
  unfold Piece.discarded
  rw [beside.type]
  split
  · exact ⟨1,beside.code⟩
  · exact ⟨0,fun spots => keeps.append (beside.code spots) (keeps.same .pop spots rfl)⟩

theorem assigned {p q : Piece} (beside : p.Beside c q) (form : AssignForm) :
    p.AssignedBeside c form q :=
  ⟨fun _ => beside,keeps.cleared beside⟩

end Contrast.KeepsCodes
end Codes

namespace CompileM

def Twins {α β : Type} (c : Contrast) (results : α → β → Prop) (x : CompileM α)
    (y : CompileM β) : Prop :=
  ∀ ⦃d e : Draft⦄, c.drafts d e →
    Ends results (CompileError.Twin c.names c.spans) c.drafts c.drafts (x.run d) (y.run e)

namespace Twins
variable {c : Contrast} {α β γ δ : Type} {results : α → β → Prop} {last : γ → δ → Prop}

theorem bind {x : CompileM α} {y : CompileM β} {k : α → CompileM γ} {l : β → CompileM δ}
    (first : Twins c results x y) (next : ∀ a b, results a b → Twins c last (k a) (l b)) :
    Twins c last (x >>= k) (y >>= l) := by
  intro d e near
  refine (first near).bind ?_
  intro a b d e result near
  exact next a b result near

theorem andThen {x y : CompileM α} {k : α → CompileM γ} {l : α → CompileM δ}
    (first : Twins c Eq x y) (next : ∀ a, Twins c last (k a) (l a)) :
    Twins c last (x >>= k) (y >>= l) :=
  first.bind fun a _ same => same ▸ next a

theorem pure {a : α} {b : β} (result : results a b) : Twins c results (pure a) (pure b) :=
  fun _ _ near => .ok result near

theorem fail {fault other : CompileError} (told : fault.Twin c.names c.spans other) :
    Twins c results (throw fault) (throw other) :=
  fun _ _ near => .error told near

theorem weaken {x : CompileM α} {y : CompileM β} {weaker : α → β → Prop}
    (all : Twins c results x y) (implied : ∀ a b, results a b → weaker a b) :
    Twins c weaker x y := by
  intro d e near
  have outcome := all near
  generalize x.run d = left, y.run e = right at outcome ⊢
  cases outcome with
  | ok result near => exact .ok (implied _ _ result) near
  | error told near => exact .error told near

theorem got : Twins c c.drafts get get :=
  fun _ _ near => .ok near near

theorem put {d e : Draft} (near : c.drafts d e) : Twins c Eq (set d : CompileM PUnit) (set e) :=
  fun _ _ _ => .ok rfl near

section Steps
variable (keeps : c.KeepsDrafts) {a b : String} {s t : Span}
include keeps

theorem lookupLocal (named : c.names a b) (places : c.spans s t) :
    Twins c (Binding.Twin c.spans) (lookupLocal a s) (lookupLocal b t) := by
  refine got.bind ?_
  intro d e near
  have found := keeps.find near named
  rw [Scope.lookup,Scope.lookup]
  generalize d.scope.find? a = one, e.scope.find? b = two at found ⊢
  cases found with
  | some twin => exact .pure twin
  | none => exact .fail (.undefinedVariable named places)

theorem declareLocal (named : c.names a b) (places : c.spans s t) (type : StaticType) :
    Twins c (Binding.Twin c.spans) (declareLocal a type s) (declareLocal b type t) := by
  refine got.bind ?_
  intro d e near
  have found := keeps.find near named
  obtain ⟨twin,bound⟩ := keeps.bind type near named places
  rw [Scope.declare,Scope.declare]
  generalize d.scope.find? a = one, e.scope.find? b = two at found ⊢
  cases found with
  | some first => exact fun _ _ near => .error (.duplicateDeclaration named first.span places) near
  | none => exact fun _ _ _ => .ok twin bound

theorem bindOrReuse (named : c.names a b) (places : c.spans s t) (type : StaticType) :
    Twins c (Binding.Twin c.spans) (bindOrReuse a type s) (bindOrReuse b type t) := by
  refine got.bind ?_
  intro d e near
  have found := keeps.find near named
  obtain ⟨twin,bound⟩ := keeps.bind type near named places
  rw [Scope.bindOrReuse,Scope.bindOrReuse]
  generalize d.scope.find? a = one, e.scope.find? b = two at found ⊢
  cases found with
  | some first => exact (put near).andThen fun _ => .pure first
  | none => exact (put bound).andThen fun _ => .pure twin

theorem ask {question others : Nat → Option Property}
    {answers : Option Property → Option Property → Prop}
    (answered : ∀ {d e}, c.drafts d e → answers (question d.queries) (others e.queries)) :
    Twins c answers (ask question) (ask others) := by
  refine got.bind ?_
  intro d e near
  exact (put (keeps.ask near)).andThen fun _ => .pure (answered near)

theorem recordAccessor {p q : Property} (serves : c.served p q) (places : c.spans s t) :
    Twins c Eq (recordAccessor p s) (recordAccessor q t) := by
  refine got.bind ?_
  intro d e near
  -- the place found decides whether the property is added, and it is the same in both
  simp only [keeps.place near serves,keeps.sized near]
  split
  · refine (put (keeps.record near serves)).andThen ?_
    intro _
    split
    · exact .fail (.limitExceeded _ _ places)
    · exact .pure rfl
  · split
    · exact .fail (.limitExceeded _ _ places)
    · exact .pure rfl

end Steps

theorem elementType (name : String) (count : Nat) {s t : Span} (places : c.spans s t) :
    Twins c Eq (elementType name count s) (elementType name count t) := by
  unfold CompileM.elementType
  cases StaticType.ofName? name with
  | none => exact .fail (.unknownType name places)
  | some element =>
    simp only
    split
    · exact .fail (.limitExceeded _ _ places)
    · exact .pure rfl

section Pieces
variable (keeps : c.Keeps) {x y : CompileM Piece} {s t valueSpan otherSpan : Span} {a b : String}
include keeps

theorem converted (pieces : Twins c (Piece.Beside c) x y) (wanted : StaticType)
    (places : c.spans s t) :
    Twins c (Yields c .value) (converted wanted s x) (converted wanted t y) := by
  refine pieces.bind ?_
  intro p q beside
  rw [beside.type]
  unfold coerce
  cases found : Coercion.find? p.type wanted with
  | none => exact .fail (.unresolvedCoercion _ _ places)
  | some coercion =>
    refine .pure ?_
    intro spots
    exact keeps.append (beside.code spots)
      ((Coercion.coerces found).beside keeps.toKeepsCodes spots)

theorem assignLocal (form : AssignForm) (named : c.names a b) (places : c.spans s t)
    (values : Twins c (Piece.Beside c) x y) (inside : c.spans valueSpan otherSpan) :
    Twins c (Piece.AssignedBeside c form) (assignLocal c.setup.options form a s valueSpan x)
      (assignLocal c.other.options form b t otherSpan y) := by
  unfold CompileM.assignLocal
  rw [keeps.implicit]
  refine (bindOrReuse keeps.toKeepsDrafts named places _).bind ?_
  intro binding twin same
  rw [same.type,same.slot]
  refine (converted keeps values binding.entry.type inside).bind ?_
  intro code other codes
  cases form with
  | statement =>
    refine .pure ⟨(by intro used; cases used),0,?_⟩
    intro spots
    exact keeps.append (codes spots) (keeps.same (.storeLocal binding.slot) spots rfl)
  | expression =>
    have beside : Piece.Beside c ⟨code ++ [.dup,.storeLocal binding.slot],binding.entry.type⟩
        ⟨other ++ [.dup,.storeLocal binding.slot],binding.entry.type⟩ :=
      ⟨rfl,keeps.copied codes _ rfl rfl rfl⟩
    exact .pure (keeps.assigned beside .expression)

theorem assignStored {spot : Spot} {key otherKey : CompileM Piece} {keySpan otherKeySpan : Span}
    (keyed : Twins c (Yields c spot) (CompileM.converted .string keySpan key)
      (CompileM.converted .string otherKeySpan otherKey))
    (writes : c.writes spot) (values : Twins c (Piece.Beside c) x y)
    (inside : c.spans valueSpan otherSpan) :
    Twins c (Piece.Beside c) (assignStored keySpan valueSpan key x)
      (assignStored otherKeySpan otherSpan otherKey y) := by
  refine keyed.bind ?_
  intro keyCode otherKeyCode keyCodes
  refine (converted keeps values .object inside).bind ?_
  intro code other codes
  exact .pure ⟨rfl,keeps.writeAt keyCodes codes writes⟩

theorem assignProperty (asks : c.asked a b) (places : c.spans s t)
    (values : ∀ query p, c.setup.lookup.resolveSetter query a = some p →
      Twins c (Piece.Beside c) x y) (inside : c.spans valueSpan otherSpan) :
    Twins c (Piece.Beside c) (assignProperty c.setup.lookup a s valueSpan x)
      (assignProperty c.other.lookup b t otherSpan y) := by
  have asking : Twins c (fun one two => Option.Rel c.served one two ∧
      ∃ query, one = c.setup.lookup.resolveSetter query a)
      (CompileM.ask (c.setup.lookup.resolveSetter · a))
      (CompileM.ask (c.other.lookup.resolveSetter · b)) :=
    ask keeps.toKeepsDrafts fun near => ⟨keeps.setter near asks,_,rfl⟩
  refine asking.bind ?_
  rintro one two ⟨answered,query,found⟩
  cases answered with
  | none => exact .pure ⟨rfl,keeps.pushes .pushNull rfl rfl rfl⟩
  | some serves =>
    refine (converted keeps (values query _ found.symm) .object inside).bind ?_
    intro code other codes
    refine (recordAccessor keeps.toKeepsDrafts serves places).andThen ?_
    intro index
    exact .pure ⟨rfl,keeps.copied codes (.callSetter index) rfl rfl rfl⟩

theorem readProperty (asks : c.asked a b) (places : c.spans s t) :
    Twins c (Piece.Beside c) (readProperty c.setup.lookup a s)
      (readProperty c.other.lookup b t) := by
  refine (ask keeps.toKeepsDrafts fun near => keeps.getter near asks).bind ?_
  intro one two answered
  cases answered with
  | none => exact .pure ⟨rfl,keeps.pushes .pushNull rfl rfl rfl⟩
  | some serves =>
    refine (recordAccessor keeps.toKeepsDrafts serves places).andThen ?_
    intro index
    exact .pure ⟨rfl,keeps.pushes (.callGetter index) rfl rfl rfl⟩

end Pieces
end Twins
end CompileM

/-- Trees that compare in all that code is made of. The base of an access and the
value of a property that cannot be written leave no code. -/
inductive Expr.Twin (c : Contrast) : Role → Expr → Expr → Prop where
  | constant (role k) {s t} (places : c.spans s t) : Twin c role (.constant k s) (.constant k t)
  | keyText {a b s t} (letters : c.keys a b) (places : c.spans s t) :
      Twin c .key (.constant (.string a) s) (.constant (.string b) t)
  | null (role) {s t} (places : c.spans s t) : Twin c role (.null s) (.null t)
  | localRef (role) {a b s t} (named : c.names a b) (places : c.spans s t) :
      Twin c role (.localRef a s) (.localRef b t)
  | argument (role index) {s t} (places : c.spans s t) :
      Twin c role (.argument index s) (.argument index t)
  | indexed (role) {base otherBase key otherKey s t} (places : c.spans s t)
      (keys : Twin c .key key otherKey) (reads : c.reads key.spot) :
      Twin c role (.indexed base key s) (.indexed otherBase otherKey t)
  | property (role) {a b s t} (asks : c.asked a b) (places : c.spans s t) :
      Twin c role (.property a s) (.property b t)
  | arrayOf (role element) {items others s t} (places : c.spans s t)
      (count : items.length = others.length)
      (each : ∀ (n : Nat) e f, items[n]? = some e → others[n]? = some f → Twin c .value e f) :
      Twin c role (.arrayOf element items s) (.arrayOf element others t)
  | assignLocal (role) {a b place otherPlace value other s t} (places : c.spans s t)
      (named : c.names a b) (targets : c.spans place otherPlace)
      (values : Twin c .value value other) :
      Twin c role (.assign (.localRef a place) value s) (.assign (.localRef b otherPlace) other t)
  | assignStored (role) {base otherBase key otherKey place otherPlace value other s t}
      (places : c.spans s t) (keys : Twin c .key key otherKey) (writes : c.writes key.spot)
      (values : Twin c .value value other) :
      Twin c role (.assign (.indexed base key place) value s)
        (.assign (.indexed otherBase otherKey otherPlace) other t)
  | assignProperty (role) {a b place otherPlace value other s t} (places : c.spans s t)
      (asks : c.asked a b) (targets : c.spans place otherPlace)
      (inside : c.spans value.span other.span)
      (values : ∀ query p, c.setup.lookup.resolveSetter query a = some p →
        Twin c .value value other) :
      Twin c role (.assign (.property a place) value s) (.assign (.property b otherPlace) other t)
  | unassignable (role) {target otherTarget value other s t} (places : c.spans s t)
      (fixed : target.assignable = false) (alsoFixed : otherTarget.assignable = false)
      (kinds : otherTarget.kind = target.kind) (targets : c.spans target.span otherTarget.span) :
      Twin c role (.assign target value s) (.assign otherTarget other t)

structure Contrast.Admits (c : Contrast) (name : String → String) (place : Span → Span) : Prop where
  names (a : String) : c.names a (name a)
  spans (s : Span) : c.spans s (place s)
  asked (a : String) : c.asked a a
  reads (spot : Spot) : c.reads spot
  writes (spot : Spot) : c.writes spot

namespace Expr
open CompileM
variable {c : Contrast} {e f : Expr}

theorem Twin.mapped (role : Role) (element : String) {items : List Expr} {s t : Span}
    (places : c.spans s t) {g : Expr → Expr} (each : ∀ item ∈ items, Twin c .value item (g item)) :
    Twin c role (.arrayOf element items s) (.arrayOf element (items.map g) t) := by
  refine .arrayOf role element places (by simp) ?_
  intro n e f one two
  rw [List.getElem?_map,one,Option.map_some] at two
  cases two
  exact each e (List.mem_of_getElem? one)

/-- Rewriting trees by `g` changes the names of locals and the places, and nothing else. -/
structure Relabels (name : String → String) (place : Span → Span) (g : Expr → Expr) : Prop where
  constant (k : Constant) (s : Span) : g (.constant k s) = .constant k (place s)
  null (s : Span) : g (.null s) = .null (place s)
  localRef (a : String) (s : Span) : g (.localRef a s) = .localRef (name a) (place s)
  argument (index : Nat) (s : Span) : g (.argument index s) = .argument index (place s)
  indexed (base key : Expr) (s : Span) : g (.indexed base key s) = .indexed (g base) (g key) (place s)
  property (a : String) (s : Span) : g (.property a s) = .property a (place s)
  arrayOf (element : String) (items : List Expr) (s : Span) :
    g (.arrayOf element items s) = .arrayOf element (items.map g) (place s)
  assign (target value : Expr) (s : Span) :
    g (.assign target value s) = .assign (g target) (g value) (place s)

namespace Relabels
variable {name : String → String} {place : Span → Span} {g : Expr → Expr}

theorem outline (relabels : Relabels name place g) (e : Expr) :
    (g e).span = place e.span ∧ (g e).kind = e.kind ∧ (g e).assignable = e.assignable := by
  cases e <;> simp only [relabels.constant,relabels.null,relabels.localRef,relabels.argument,
    relabels.indexed,relabels.property,relabels.arrayOf,relabels.assign,span,kind,assignable,
    and_self]

theorem spans (relabels : Relabels name place g) (admits : c.Admits name place) (e : Expr) :
    c.spans e.span (g e).span := by
  rw [(relabels.outline e).1]
  exact admits.spans e.span

theorem twin (relabels : Relabels name place g) (admits : c.Admits name place) (e : Expr)
    (role : Role) : e.Twin c role (g e) := by
  revert role
  refine compile.induct (fun e => ∀ role, e.Twin c role (g e))
    (fun _ _ items => ∀ item ∈ items, item.Twin c .value (g item))
    ?constant ?null ?localRef ?argument ?indexed ?property ?arrayOf ?assignLocal ?assignIndexed
    ?assignProperty ?unassignable ?noItems ?moreItems e
  case constant =>
    intro k s role
    rw [relabels.constant]
    exact .constant role k (admits.spans s)
  case null =>
    intro s role
    rw [relabels.null]
    exact .null role (admits.spans s)
  case localRef =>
    intro a s role
    rw [relabels.localRef]
    exact .localRef role (admits.names a) (admits.spans s)
  case argument =>
    intro index s role
    rw [relabels.argument]
    exact .argument role index (admits.spans s)
  case indexed =>
    intro base key s keys role
    rw [relabels.indexed]
    exact .indexed role (admits.spans s) (keys .key) (admits.reads _)
  case property =>
    intro a s role
    rw [relabels.property]
    exact .property role (admits.asked a) (admits.spans s)
  case arrayOf =>
    intro element items s filled role
    rw [relabels.arrayOf]
    exact .mapped role element (admits.spans s) (filled .object)
  case assignLocal =>
    intro a spot value s values role
    rw [relabels.assign,relabels.localRef]
    exact .assignLocal role (admits.spans s) (admits.names a) (admits.spans spot) (values .value)
  case assignIndexed =>
    intro base key spot value s keys values role
    rw [relabels.assign,relabels.indexed]
    exact .assignStored role (admits.spans s) (keys .key) (admits.writes _) (values .value)
  case assignProperty =>
    intro a spot value s values role
    rw [relabels.assign,relabels.property]
    exact .assignProperty role (admits.spans s) (admits.asked a) (admits.spans spot)
      (relabels.spans admits value) fun _ _ _ => values .value
  case unassignable =>
    intro target value s notLocal notIndexed notProperty role
    have fixed : target.assignable = false := by
      cases target with
      | localRef a spot => exact (notLocal a spot rfl).elim
      | indexed base key spot => exact (notIndexed base key spot rfl).elim
      | property a spot => exact (notProperty a spot rfl).elim
      | constant | null | argument | arrayOf | assign => rfl
    obtain ⟨_,kinds,alike⟩ := relabels.outline target
    rw [relabels.assign]
    exact .unassignable role (admits.spans s) fixed (alike.trans fixed) kinds
      (relabels.spans admits target)
  case noItems => simp
  case moreItems =>
    intro element index item items first rest other member
    rcases List.mem_cons.mp member with rfl | later
    · exact first .value
    · exact rest other later

end Relabels

def CompilesBeside (c : Contrast) (e f : Expr) : Role → Prop
  | .value => Twins c (Piece.Beside c) (e.compile c.setup) (f.compile c.other)
  | .key => Twins c (Yields c e.spot) (converted .string e.span (e.compile c.setup))
      (converted .string f.span (f.compile c.other))

theorem CompilesBeside.inRole (keeps : c.Keeps) (compiles : CompilesBeside c e f .value)
    (computed : e.spot = .value) (places : c.spans e.span f.span) (role : Role) :
    CompilesBeside c e f role := by
  cases role with
  | value => exact compiles
  | key =>
    unfold CompilesBeside
    rw [computed]
    exact Twins.converted keeps compiles .string places

theorem keyCompilesBeside (keeps : c.Keeps) {a b : String} (letters : c.keys a b) (s t : Span) :
    CompilesBeside c (constant (.string a) s) (constant (.string b) t) .key :=
  fun _ _ near => .ok (fun spots => keeps.key spots letters) near

theorem unassignableRefused {target : Expr} (fixed : target.assignable = false)
    (setup : CompileSetup) (form : AssignForm) (value : Expr) :
    compileAssignment setup form target value =
      throw (.unassignableTarget target.kind target.span) := by
  cases target with
  | localRef | indexed | property => cases fixed
  | constant | null | argument | arrayOf | assign => rfl

theorem loneCompilesBeside (keeps : c.Keeps) {i : Instruction} {type : StaticType}
    (one : e.compile c.setup = pure ⟨[i],type⟩) (two : f.compile c.other = pure ⟨[i],type⟩)
    (plain : i.usesStore = false) (takes : i.takes = 0) (leaves : i.leaves = 1) :
    CompilesBeside c e f .value := by
  unfold CompilesBeside
  rw [one,two]
  exact .pure ⟨rfl,keeps.pushes i plain takes leaves⟩

theorem constantCompilesBeside (keeps : c.Keeps) (k : Constant) {s t : Span}
    (places : c.spans s t) (role : Role) :
    CompilesBeside c (constant k s) (constant k t) role := by
  have lone : CompilesBeside c (constant k s) (constant k t) .value :=
    loneCompilesBeside keeps (compile.eq_1 ..) (compile.eq_1 ..) rfl rfl rfl
  cases k with
  | string text =>
    cases role with
    | value => exact lone
    | key => exact keyCompilesBeside keeps (keeps.spelled text) s t
  | int | long | decimal | bool => exact lone.inRole keeps rfl places role

theorem itemsCompileBeside (keeps : c.Keeps) {items others : List Expr}
    (count : items.length = others.length)
    (places : ∀ (n : Nat) e f, items[n]? = some e → others[n]? = some f → c.spans e.span f.span)
    (each : ∀ (n : Nat) e f, items[n]? = some e → others[n]? = some f →
      CompilesBeside c e f .value) (element : StaticType) (index : Nat) :
    Twins c (fun code other => ∀ spots, c.codes (.value :: spots) code other (.value :: spots))
      (compileItems c.setup element index items) (compileItems c.other element index others) := by
  induction items generalizing others index with
  | nil =>
    cases others with
    | nil =>
      unfold compileItems
      exact .pure fun spots => keeps.nil _
    | cons other others => simp at count
  | cons item items ih =>
    cases others with
    | nil => simp at count
    | cons other others =>
      have compiled : Twins c (Piece.Beside c) (item.compile c.setup) (other.compile c.other) :=
        each 0 item other rfl rfl
      have rest := ih (Nat.succ.inj count) (fun n => places (n + 1)) (fun n => each (n + 1))
        (index + 1)
      unfold compileItems
      refine (Twins.converted keeps compiled element (places 0 item other rfl rfl)).bind ?_
      intro code changed codes
      refine rest.bind ?_
      intro more others fills
      exact .pure (keeps.filled index codes fills)

theorem Twin.spans {role : Role} (twin : Twin c role e f) : c.spans e.span f.span := by
  cases twin <;> assumption

theorem Twin.compiles (keeps : c.Keeps) {role : Role} (twin : Twin c role e f) :
    CompilesBeside c e f role := by
  have places := twin.spans
  induction twin with
  | constant role k spans => exact constantCompilesBeside keeps k spans role
  | keyText letters spans => exact keyCompilesBeside keeps letters _ _
  | null role spans =>
    exact (loneCompilesBeside keeps (compile.eq_2 ..) (compile.eq_2 ..) rfl rfl rfl).inRole keeps
      rfl places role
  | localRef role named spans =>
    refine CompilesBeside.inRole keeps ?_ rfl places role
    unfold CompilesBeside compile
    refine (Twins.lookupLocal keeps.toKeepsDrafts named spans).bind ?_
    intro b twin same
    rw [same.slot,same.type]
    exact .pure ⟨rfl,keeps.pushes (.loadLocal b.slot) rfl rfl rfl⟩
  | argument role index spans =>
    exact (loneCompilesBeside keeps (compile.eq_4 ..) (compile.eq_4 ..) rfl rfl rfl).inRole keeps
      rfl places role
  | indexed role spans keys reads ih =>
    refine CompilesBeside.inRole keeps ?_ rfl places role
    unfold CompilesBeside compile
    refine (ih keys.spans).bind ?_
    intro code other codes
    exact .pure ⟨rfl,keeps.readAt codes reads⟩
  | property role asks spans =>
    refine CompilesBeside.inRole keeps ?_ rfl places role
    unfold CompilesBeside compile
    exact .readProperty keeps asks spans
  | @arrayOf role name items others s t spans count each ih =>
    refine CompilesBeside.inRole keeps ?_ rfl places role
    unfold CompilesBeside compile
    rw [count]
    refine (Twins.elementType name others.length spans).andThen ?_
    intro element
    refine (itemsCompileBeside keeps count (fun n e f one two => (each n e f one two).spans)
      (fun n e f one two => ih n e f one two (each n e f one two).spans) element 0).bind ?_
    intro code other fills
    exact .pure ⟨rfl,keeps.made others.length element fills⟩
  | assignLocal role spans named targets values ih =>
    refine CompilesBeside.inRole keeps ?_ rfl places role
    unfold CompilesBeside
    rw [compileAssign,compileAssign]
    exact (Twins.assignLocal keeps .expression named targets (ih values.spans)
      values.spans).weaken fun p q assigned => assigned.used rfl
  | assignStored role spans keys writes values ihKey ihValue =>
    refine CompilesBeside.inRole keeps ?_ rfl places role
    unfold CompilesBeside
    rw [compileAssign,compileAssign]
    exact .assignStored keeps (ihKey keys.spans) writes (ihValue values.spans) values.spans
  | assignProperty role spans asks targets inside values ih =>
    refine CompilesBeside.inRole keeps ?_ rfl places role
    unfold CompilesBeside
    rw [compileAssign,compileAssign]
    exact .assignProperty keeps asks targets
      (fun query p found => ih query p found (values query p found).spans) inside
  | unassignable role spans fixed alsoFixed kinds targets =>
    refine CompilesBeside.inRole keeps ?_ rfl places role
    unfold CompilesBeside
    rw [compileAssign,compileAssign,unassignableRefused fixed,unassignableRefused alsoFixed,kinds]
    exact .fail (.unassignableTarget _ targets)

theorem Twin.assigns (keeps : c.Keeps) {role : Role} {target otherTarget value other : Expr}
    {s t : Span} (twin : Twin c role (assign target value s) (assign otherTarget other t))
    (form : AssignForm) :
    Twins c (Piece.AssignedBeside c form) (compileAssignment c.setup form target value)
      (compileAssignment c.other form otherTarget other) := by
  have used {p q : Piece} (beside : p.Beside c q) : p.AssignedBeside c form q :=
    keeps.assigned beside form
  cases twin with
  | assignLocal _ _ named targets values =>
    exact .assignLocal keeps form named targets (values.compiles keeps) values.spans
  | assignStored _ _ keys writes values =>
    exact (Twins.assignStored keeps (keys.compiles keeps) writes (values.compiles keeps)
      values.spans).weaken fun _ _ => used
  | assignProperty _ _ asks targets inside values =>
    exact (Twins.assignProperty keeps asks targets
      (fun query p found => (values query p found).compiles keeps) inside).weaken fun _ _ => used
  | unassignable _ _ fixed alsoFixed kinds targets =>
    rw [unassignableRefused fixed,unassignableRefused alsoFixed,kinds]
    exact .fail (.unassignableTarget _ targets)

end Expr

inductive Stmt.Twin (c : Contrast) : Stmt → Stmt → Prop where
  | declare {a b init other s t} (places : c.spans s t) (named : c.names a b)
      (inits : init.Twin c .value other) : Twin c (.declare a init s) (.declare b other t)
  | assign {target otherTarget value other s t} (places : c.spans s t)
      (whole : (Expr.assign target value s).Twin c .value (.assign otherTarget other t)) :
      Twin c (.assign target value s) (.assign otherTarget other t)
  | evaluate {e f s t} (places : c.spans s t) (whole : e.Twin c .value f) :
      Twin c (.evaluate e s) (.evaluate f t)

section Bodies
open CompileM
variable {c : Contrast}

theorem Stmt.Twin.spans {stmt other : Stmt} (twin : stmt.Twin c other) :
    c.spans stmt.span other.span := by
  cases twin <;> assumption

theorem Stmt.Twin.compiles (keeps : c.Keeps) {stmt other : Stmt} (twin : stmt.Twin c other) :
    Twins c (Clears c) (stmt.compile c.setup) (other.compile c.other) := by
  cases twin with
  | declare places named inits =>
    refine Twins.bind (inits.compiles keeps) ?_
    intro p q beside
    rw [beside.type]
    refine (Twins.declareLocal keeps.toKeepsDrafts named places p.type).bind ?_
    intro b twin same
    rw [same.slot]
    refine .pure ⟨0,?_⟩
    intro spots
    exact keeps.append (beside.code spots) (keeps.same (.storeLocal b.slot) spots rfl)
  | assign places whole =>
    refine (whole.assigns keeps .statement).bind ?_
    intro p q assigned
    exact .pure assigned.cleared
  | evaluate places whole =>
    refine Twins.bind (whole.compiles keeps) ?_
    intro p q beside
    exact .pure (keeps.cleared beside)

def Contrast.KeepsEmitters (c : Contrast) (emitters : Emitter → Emitter → Prop) : Prop :=
  ∀ {a b code other s t}, emitters a b → Clears c code other → c.spans s t →
    emitters ((a.setLine s.line).emitAll code) ((b.setLine t.line).emitAll other)

theorem bodyTwins (keeps : c.Keeps) {emitters : Emitter → Emitter → Prop}
    (emits : c.KeepsEmitters emitters) {body other : List Stmt}
    (twins : List.Forall₂ (Stmt.Twin c) body other) {a b : Emitter} (begun : emitters a b) :
    Twins c emitters (compileBody c.setup body a) (compileBody c.other other b) := by
  induction twins generalizing a b with
  | nil => exact .pure begun
  | cons first rest ih =>
    refine (first.compiles keeps).bind ?_
    intro code other codes
    exact ih (emits begun codes first.spans)

theorem methodTwins (keeps : c.Keeps) {emitters : Emitter → Emitter → Prop}
    (emits : c.KeepsEmitters emitters) {method other : Method}
    (twins : List.Forall₂ (Stmt.Twin c) method.body other.body) (first second : Nat)
    (drafts : c.drafts { queries := first } { queries := second })
    (begun : emitters { recordsLines := c.setup.options.recordsLines }
      { recordsLines := c.other.options.recordsLines }) :
    (∃ one two d e, CompileError.Twin c.names c.spans one two ∧ c.drafts d e ∧
      compileMethod c.setup method first = (.error one,d.queries) ∧
      compileMethod c.other other second = (.error two,e.queries)) ∨
    ∃ a b d e, emitters a b ∧ c.drafts d e ∧
      compileMethod c.setup method first =
        (.ok ⟨method.name,a.listing,d.scope.locals,d.accessors⟩,d.queries) ∧
      compileMethod c.other other second =
        (.ok ⟨other.name,b.listing,e.scope.locals,e.accessors⟩,e.queries) := by
  have outcome := bodyTwins keeps emits twins begun drafts
  rw [compileMethodPieces,compileMethodPieces]
  generalize (compileBody c.setup method.body _).run _ = left,
    (compileBody c.other other.body _).run _ = right at outcome ⊢
  cases outcome with
  | ok emitted near => exact .inr ⟨_,_,_,_,emitted,near,rfl,rfl⟩
  | error told near => exact .inl ⟨_,_,_,_,told,near,rfl,rfl⟩

end Bodies
end ScriptMachine
