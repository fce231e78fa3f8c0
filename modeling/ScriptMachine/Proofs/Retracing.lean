import ScriptMachine.Proofs.TwinTrees
/-! Compiling once more. The tree is the same but for its places, and the lookup is
asked from another number on. If it answers there as it did before, with accessors
that may be new ones but are shared or told apart as the first ones were, the code
is the same, or the same fault is met. -/
namespace ScriptMachine

def Property.face (p : Property) : String × Bool × Bool :=
  (p.name,p.getter.isSome,p.setter.isSome)

namespace Lookup

def Counterparts (lookup : Lookup) (first second : Nat) (p q : Property) : Prop :=
  ∃ n name, lookup.resolve (first + n) name = some p ∧ lookup.resolve (second + n) name = some q

/-- From the second start on the lookup answers as from the first. The accessors may be
new ones, but two answers share them there if they did so before. -/
structure RepeatsFrom (lookup : Lookup) (first second : Nat) : Prop where
  faces : ∀ n name, (lookup.resolve (first + n) name).map (·.face) =
    (lookup.resolve (second + n) name).map (·.face)
  shares : ∀ p q r s, lookup.Counterparts first second p q →
    lookup.Counterparts first second r s → p.sharesAccessors r = q.sharesAccessors s

structure Correspond (lookup : Lookup) (first second : Nat) (table other : List Property) :
    Prop where
  sized : table.length = other.length
  served : ∀ (n : Nat) p q, table[n]? = some p → other[n]? = some q →
    lookup.Counterparts first second p q

section Answers
variable {lookup : Lookup} {first second : Nat} {p q : Property}

theorem sameCounterparts
    (same : ∀ n name, lookup.resolve (first + n) name = lookup.resolve (second + n) name)
    (asked : lookup.Counterparts first second p q) : p = q := by
  obtain ⟨n,name,one,two⟩ := asked
  rw [same n name,two] at one
  exact (Option.some.inj one).symm

theorem repeatsSame
    (same : ∀ n name, lookup.resolve (first + n) name = lookup.resolve (second + n) name) :
    lookup.RepeatsFrom first second := by
  refine ⟨fun n name => by rw [same n name],?_⟩
  intro p q r s left right
  rw [sameCounterparts same left,sameCounterparts same right]

theorem RepeatsFrom.face (again : lookup.RepeatsFrom first second)
    (asked : lookup.Counterparts first second p q) : p.face = q.face := by
  obtain ⟨n,name,one,two⟩ := asked
  have faces := again.faces n name
  rw [one,two,Option.map_some,Option.map_some] at faces
  exact Option.some.inj faces

theorem RepeatsFrom.answered (again : lookup.RepeatsFrom first second) {keep : Property → Bool}
    (seen : ∀ p q : Property, p.face = q.face → keep p = keep q) (n : Nat) (name : String) :
    Option.Rel (lookup.Counterparts first second)
      ((lookup.resolve (first + n) name).filter keep)
      ((lookup.resolve (second + n) name).filter keep) := by
  have faces := again.faces n name
  cases one : lookup.resolve (first + n) name with
  | none =>
    rw [one,Option.map_none] at faces
    rw [Option.map_eq_none_iff.mp faces.symm]
    exact .none
  | some p =>
    rw [one,Option.map_some] at faces
    obtain ⟨q,two,face⟩ := Option.map_eq_some_iff.mp faces.symm
    rw [two,Option.filter_some,Option.filter_some,seen q p face]
    split
    · exact .some ⟨n,name,one,two⟩
    · exact .none

theorem RepeatsFrom.getter (again : lookup.RepeatsFrom first second) (n : Nat) (name : String) :
    Option.Rel (lookup.Counterparts first second)
      (lookup.resolveGetter (first + n) name) (lookup.resolveGetter (second + n) name) :=
  again.answered (fun _ _ face => congrArg (·.2.1) face) n name

theorem RepeatsFrom.setter (again : lookup.RepeatsFrom first second) (n : Nat) (name : String) :
    Option.Rel (lookup.Counterparts first second)
      (lookup.resolveSetter (first + n) name) (lookup.resolveSetter (second + n) name) :=
  again.answered (fun _ _ face => congrArg (·.2.2) face) n name

end Answers

namespace Correspond
variable {lookup : Lookup} {first second : Nat} {table other : List Property} {p q : Property}

theorem columns {α : Type} (correspond : lookup.Correspond first second table other)
    {f g : Property → α} (same : ∀ p q, lookup.Counterparts first second p q → f p = g q) :
    table.map f = other.map g := by
  refine List.ext_getElem (by simp [correspond.sized]) ?_
  intro n one two
  rw [List.length_map] at one two
  rw [List.getElem_map,List.getElem_map]
  exact same _ _ (correspond.served n _ _ (List.getElem?_eq_getElem one)
    (List.getElem?_eq_getElem two))

theorem place (correspond : lookup.Correspond first second table other)
    (again : lookup.RepeatsFrom first second) (asked : lookup.Counterparts first second p q) :
    table.findIdx (·.sharesAccessors p) = other.findIdx (·.sharesAccessors q) := by
  have shared : table.map (·.sharesAccessors p) = other.map (·.sharesAccessors q) :=
    correspond.columns fun r s served => again.shares r s p q served asked
  have positions := congrArg (List.findIdx id) shared
  rwa [List.findIdx_map,List.findIdx_map] at positions

theorem add (correspond : lookup.Correspond first second table other)
    (asked : lookup.Counterparts first second p q) :
    lookup.Correspond first second (table ++ [p]) (other ++ [q]) := by
  refine ⟨by simp [correspond.sized],?_⟩
  intro n r s one two
  by_cases old : n < table.length
  · rw [List.getElem?_append_left old] at one
    rw [List.getElem?_append_left (correspond.sized ▸ old)] at two
    exact correspond.served n r s one two
  · have new : other.length ≤ n := correspond.sized ▸ Nat.le_of_not_lt old
    rw [List.getElem?_append_right (Nat.le_of_not_lt old)] at one
    rw [List.getElem?_append_right new] at two
    cases List.mem_singleton.mp (List.mem_of_getElem? one)
    cases List.mem_singleton.mp (List.mem_of_getElem? two)
    exact asked

end Correspond

def fresh : Lookup :=
  ⟨{},some fun query name _ =>
    some ⟨name,some (.host 0 query),some (.host 0 query name)⟩⟩

theorem freshRepeats (first second : Nat) : fresh.RepeatsFrom first second := by
  refine ⟨fun _ _ => rfl,?_⟩
  rintro p q r s ⟨n,name,one,two⟩ ⟨m,other,three,four⟩
  cases one
  cases two
  cases three
  cases four
  rw [Bool.eq_iff_iff]
  simp [Property.sharesAccessors,Property.hasAccessor]

end Lookup

namespace Expr

mutual
def moved (move : Span → Span) : Expr → Expr
  | constant c span => constant c (move span)
  | null span => null (move span)
  | localRef name span => localRef name (move span)
  | argument index span => argument index (move span)
  | indexed base key span => indexed (moved move base) (moved move key) (move span)
  | property name span => property name (move span)
  | arrayOf element items span => arrayOf element (movedAll move items) (move span)
  | assign target value span => assign (moved move target) (moved move value) (move span)

def movedAll (move : Span → Span) : List Expr → List Expr
  | [] => []
  | e :: es => moved move e :: movedAll move es
end

attribute [simp] moved movedAll

theorem movedAllMap (move : Span → Span) (items : List Expr) :
    movedAll move items = items.map (moved move) := by
  induction items with
  | nil => rfl
  | cons item items ih => rw [movedAll,ih,List.map_cons]

theorem movedRelabels (move : Span → Span) : Relabels id move (moved move) := by
  constructor <;> intros <;> simp only [moved,movedAllMap,id]

mutual
theorem movedNowhere (e : Expr) : e.moved id = e := by
  cases e with
  | constant | null | localRef | argument | property => simp only [moved,id]
  | indexed base key span => rw [moved,movedNowhere base,movedNowhere key,id]
  | arrayOf element items span => rw [moved,movedNowhereAll items,id]
  | assign target value span => rw [moved,movedNowhere target,movedNowhere value,id]

theorem movedNowhereAll (items : List Expr) : movedAll id items = items := by
  cases items with
  | nil => rw [movedAll]
  | cons item items => rw [movedAll,movedNowhere item,movedNowhereAll items]
end

end Expr

def Stmt.moved (move : Span → Span) : Stmt → Stmt
  | declare name init span => declare name (init.moved move) (move span)
  | assign target value span => assign (target.moved move) (value.moved move) (move span)
  | evaluate e span => evaluate (e.moved move) (move span)

theorem Stmt.movedNowhere (stmt : Stmt) : stmt.moved id = stmt := by
  cases stmt <;> simp only [moved,Expr.movedNowhere,id]

def Local.moved (move : Span → Span) (entry : Local) : Local :=
  { entry with span := move entry.span }

def Binding.moved (move : Span → Span) (binding : Binding) : Binding :=
  { binding with entry := binding.entry.moved move }

def CompileError.moved (move : Span → Span) : CompileError → CompileError
  | duplicateDeclaration name first span => duplicateDeclaration name (move first) (move span)
  | undefinedVariable name span => undefinedVariable name (move span)
  | unassignableTarget target span => unassignableTarget target (move span)
  | unknownType name span => unknownType name (move span)
  | limitExceeded what limit span => limitExceeded what limit (move span)
  | unresolvedCoercion source target span => unresolvedCoercion source target (move span)

theorem CompileError.movedNowhere (e : CompileError) : e.moved id = e := by
  cases e <;> rfl

theorem findLocalFromMoved (move : Span → Span) (slot : Nat) (locals : List Local)
    (name : String) :
    findLocalFrom slot (locals.map (·.moved move)) name =
      (findLocalFrom slot locals name).map (·.moved move) := by
  induction locals generalizing slot with
  | nil => rfl
  | cons entry rest ih =>
    have named : (entry.moved move).name = entry.name := rfl
    simp only [List.map_cons,findLocalFrom,named]
    split
    · rfl
    · exact ih (slot + 1)

structure Retrace where
  lookup : Lookup
  move : Span → Span
  first : Nat
  second : Nat

structure Retrace.Together (t : Retrace) (d e : Draft) : Prop where
  locals : e.scope.locals = d.scope.locals.map (·.moved t.move)
  asked : ∃ n, d.queries = t.first + n ∧ e.queries = t.second + n
  tables : t.lookup.Correspond t.first t.second d.accessors e.accessors

namespace Retrace.Together
variable {t : Retrace} {d e : Draft}

theorem find (together : t.Together d e) (name : String) :
    e.scope.find? name = (d.scope.find? name).map (·.moved t.move) := by
  rw [Scope.find?,together.locals]
  exact findLocalFromMoved t.move 0 d.scope.locals name

theorem bind (together : t.Together d e) (name : String) (type : StaticType) (span : Span) :
    (e.scope.bind name type (t.move span)).1 = (d.scope.bind name type span).1.moved t.move ∧
      t.Together { d with scope := (d.scope.bind name type span).2 }
        { e with scope := (e.scope.bind name type (t.move span)).2 } := by
  refine ⟨?_,?_,together.asked,together.tables⟩
  · simp [Scope.bind,Scope.size,together.locals,Binding.moved,Local.moved]
  · simp [Scope.bind,together.locals,Local.moved]

end Retrace.Together

structure Retrace.Between (t : Retrace) (setup other : CompileSetup) : Prop where
  lookup : setup.lookup = t.lookup
  sameLookup : other.lookup = t.lookup
  typed : other.options.implicitType = setup.options.implicitType
  again : t.lookup.RepeatsFrom t.first t.second

def Retrace.contrast (t : Retrace) (setup other : CompileSetup) : Contrast where
  setup := setup
  other := other
  names a b := b = a
  spans s u := u = t.move s
  asked a b := b = a
  served := t.lookup.Counterparts t.first t.second
  keys a b := b = a
  reads _ := True
  writes _ := True
  drafts := t.Together
  codes _ code other _ := other = code

section Trees
variable {t : Retrace} {setup other : CompileSetup}

theorem Retrace.sameCode : (t.contrast setup other).SameCode :=
  ⟨fun _ _ => .rfl,fun _ _ _ _ => .rfl⟩

theorem Retrace.Between.keeps (between : t.Between setup other) :
    (t.contrast setup other).Keeps where
  toKeepsCodes := sameCode.keeps
  implicit := between.typed
  find := by
    rintro d e _ a together rfl
    rw [Together.find together]
    exact relMap (fun b => ⟨rfl,rfl,rfl⟩) _
  bind := by
    rintro d e _ a s _ type together rfl rfl
    obtain ⟨binding,bound⟩ := Together.bind together a type s
    exact ⟨binding ▸ ⟨rfl,rfl,rfl⟩,bound⟩
  ask := by
    rintro d e ⟨locals,⟨n,one,two⟩,tables⟩
    exact ⟨locals,⟨n + 1,congrArg (· + 1) one,congrArg (· + 1) two⟩,tables⟩
  getter := by
    rintro d e _ a ⟨_,⟨n,one,two⟩,_⟩ rfl
    have answered := between.again.getter n a
    rw [← one,← two] at answered
    simpa only [Retrace.contrast,between.lookup,between.sameLookup] using answered
  setter := by
    rintro d e _ a ⟨_,⟨n,one,two⟩,_⟩ rfl
    have answered := between.again.setter n a
    rw [← one,← two] at answered
    simpa only [Retrace.contrast,between.lookup,between.sameLookup] using answered
  place := fun together asked => together.tables.place between.again asked
  sized := fun together => together.tables.sized
  record := fun together asked => ⟨together.locals,together.asked,together.tables.add asked⟩

theorem Retrace.admits : (t.contrast setup other).Admits id t.move :=
  ⟨fun _ => rfl,fun _ => rfl,fun _ => rfl,fun _ => trivial,fun _ => trivial⟩

theorem Expr.movedTwin (e : Expr) (role : Role) :
    e.Twin (t.contrast setup other) role (e.moved t.move) :=
  (movedRelabels t.move).twin Retrace.admits e role

theorem Stmt.movedTwin (stmt : Stmt) : stmt.Twin (t.contrast setup other) (stmt.moved t.move) := by
  cases stmt with
  | declare name init span => exact .declare rfl rfl (init.movedTwin .value)
  | assign target value span =>
    have whole : (Expr.assign target value span).Twin (t.contrast setup other) .value _ :=
      Expr.movedTwin _ .value
    rw [Expr.moved] at whole
    exact .assign rfl whole
  | evaluate e span => exact .evaluate rfl (e.movedTwin .value)

end Trees

/-- Emitters of the same code. Where both record lines, or neither does, and places stay
in their lines, the two are one. -/
structure Emitter.Together (lined : Prop) (one two : Emitter) : Prop where
  instructions : two.listing.instructions = one.listing.instructions
  same : lined → two = one

theorem Emitter.Together.emit {lined : Prop} {one two : Emitter} (together : one.Together lined two)
    {line moved : Nat} (unmoved : lined → moved = line) (code : List Instruction) :
    ((one.setLine line).emitAll code).Together lined ((two.setLine moved).emitAll code) := by
  refine ⟨?_,?_⟩
  · rw [instructionsEmitAll,instructionsEmitAll]
    exact congrArg (· ++ code) together.instructions
  · intro kept
    rw [together.same kept,unmoved kept]

section Methods
variable {t : Retrace} {setup other : CompileSetup}

def Method.moved (move : Span → Span) (method : Method) : Method :=
  ⟨method.name,method.body.map (·.moved move),move method.span⟩

theorem Method.movedNowhere (method : Method) : method.moved id = method := by
  have same : Stmt.moved id = id := funext Stmt.movedNowhere
  rw [moved,same,List.map_id,id]

structure CompiledMethod.Together (t : Retrace) (one two : CompiledMethod) : Prop where
  instructions : two.listing.instructions = one.listing.instructions
  locals : two.locals = one.locals.map (·.moved t.move)
  tables : t.lookup.Correspond t.first t.second one.accessors two.accessors

theorem methodRetraces (between : t.Between setup other) (method : Method) :
    (∃ fault, (compileMethod setup method t.first).1 = .error fault ∧
      (compileMethod other (method.moved t.move) t.second).1 = .error (fault.moved t.move)) ∨
    ∃ one two, (compileMethod setup method t.first).1 = .ok one ∧
      (compileMethod other (method.moved t.move) t.second).1 = .ok two ∧ one.Together t two ∧
      (((∀ span, (t.move span).line = span.line) ∧
        other.options.recordsLines = setup.options.recordsLines) → two.listing = one.listing) := by
  have emitters : Emitter.Together ((∀ span, (t.move span).line = span.line) ∧
        other.options.recordsLines = setup.options.recordsLines)
      { recordsLines := setup.options.recordsLines }
      { recordsLines := other.options.recordsLines } :=
    ⟨rfl,fun kept => congrArg (Emitter.mk .empty 1) kept.2⟩
  have start : t.Together { queries := t.first } { queries := t.second } :=
    ⟨rfl,⟨0,rfl,rfl⟩,rfl,fun n p q held => by cases held⟩
  have emits : (t.contrast setup other).KeepsEmitters
      (Emitter.Together ((∀ span, (t.move span).line = span.line) ∧
        other.options.recordsLines = setup.options.recordsLines)) := by
    rintro a b code _ s _ emitted clears rfl
    rw [clears.same Retrace.sameCode]
    exact emitted.emit (fun kept => kept.1 s) code
  have bodies : List.Forall₂ (Stmt.Twin (t.contrast setup other)) method.body
      (method.moved t.move).body := by
    refine List.forall₂_map_right_iff.mpr (List.forall₂_same.mpr ?_)
    intro stmt _
    exact stmt.movedTwin
  rcases methodTwins between.keeps emits bodies _ _ start emitters with
    ⟨fault,moved,d,e,told,_,one,two⟩ | ⟨a,b,d,e,emitted,together,one,two⟩
  · have same : moved = fault.moved t.move := by
      cases told <;> simp_all [Retrace.contrast,CompileError.moved]
    exact .inl ⟨fault,congrArg Prod.fst one,same ▸ congrArg Prod.fst two⟩
  · exact .inr ⟨_,_,congrArg Prod.fst one,congrArg Prod.fst two,
      ⟨emitted.instructions,together.locals,together.tables⟩,
      fun kept => congrArg Emitter.listing (emitted.same kept)⟩

end Methods
end ScriptMachine
