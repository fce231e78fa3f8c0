import ScriptMachine.Proofs.LineTable
import ScriptMachine.Proofs.LocalSlots
/-! Statements added at the end. What stood before them compiles as it did without
them, into the beginning of the listing and of both tables, and a fault before them
is met all the same. -/
namespace ScriptMachine

/-- What a method leaves as it was in one that goes on after it. Properties are
compared as the view shows them. -/
structure CompiledMethod.Begins {α : Type} (view : Property → α) (part whole : CompiledMethod) :
    Prop where
  instructions : part.listing.instructions <+: whole.listing.instructions
  lines : part.listing.lines <+: whole.listing.lines
  locals : part.locals <+: whole.locals
  accessors : part.accessors.map view <+: whole.accessors.map view
  rows : ∀ (n : Nat) row, part.listing.rows[n]? = some row → whole.listing.rows[n]? = some row
  names : ∀ name b, part.local? name = some b → whole.local? name = some b
  slots : ∀ i ∈ part.listing.instructions, ∀ slot, i.slot? = some slot →
    ∃ entry, part.locals[slot]? = some entry ∧ whole.locals[slot]? = some entry
  properties : ∀ i ∈ part.listing.instructions, ∀ n, i.accessor? = some n →
    ∃ p q, part.accessors[n]? = some p ∧ whole.accessors[n]? = some q ∧ view p = view q

structure Increments {α : Type} (view : Property → α)
    (part whole : Except CompileError CompiledMethod) : Prop where
  fails : ∀ fault, part = .error fault → whole = .error fault
  begins : ∀ w, whole = .ok w → ∃ p, part = .ok p ∧ p.Begins view w

section Operands
variable {setup : CompileSetup} {method : Method} {queries : Nat} {compiled : CompiledMethod}

theorem methodSlots (ok : (compileMethod setup method queries).1 = .ok compiled) :
    ∀ i ∈ compiled.listing.instructions, ∀ slot, i.slot? = some slot →
      ∃ entry, compiled.locals[slot]? = some entry := by
  obtain ⟨draft,lowers,locals,_⟩ := methodLowers ok
  have slotted := lowers.referring.slotted compiled.locals (locals ▸ List.prefix_refl _)
  intro i member slot refers
  have listed : some i ∈ (compiled.listing.instructions.filter (·.slot?.isSome)).map some := by
    simp [member,refers]
  rw [slotted] at listed
  obtain ⟨use,_,same⟩ := List.mem_map.mp listed
  obtain ⟨b,found,rfl⟩ := Option.map_eq_some_iff.mp same
  have own : (use.instruction b.slot).slot? = some b.slot := by cases use <;> rfl
  cases own.symm.trans refers
  exact ⟨b.entry,(findLocalSound found).1⟩

theorem methodAccessors (ok : (compileMethod setup method queries).1 = .ok compiled) :
    ∀ i ∈ compiled.listing.instructions, ∀ n, i.accessor? = some n →
      ∃ p, compiled.accessors[n]? = some p := by
  intro i member n calls
  have order : (compiled.listing.instructions.filterMap (·.accessor?)).eraseDups =
      List.range compiled.accessors.length := (methodRecorded ok).order
  have used : n ∈ compiled.listing.instructions.filterMap (·.accessor?) :=
    List.mem_filterMap.mpr ⟨i,member,calls⟩
  rw [← List.mem_eraseDups,order,List.mem_range] at used
  exact ⟨_,List.getElem?_eq_getElem used⟩

theorem CompiledMethod.Begins.ofTables {α : Type} {view : Property → α} {whole : CompiledMethod}
    (ok : (compileMethod setup method queries).1 = .ok compiled)
    (instructions : compiled.listing.instructions <+: whole.listing.instructions)
    (lines : compiled.listing.lines <+: whole.listing.lines)
    (locals : compiled.locals <+: whole.locals)
    (accessors : compiled.accessors.map view <+: whole.accessors.map view) :
    compiled.Begins view whole where
  instructions := instructions
  lines := lines
  locals := locals
  accessors := accessors
  rows n row held := prefixAt (Listing.rowsPrefix instructions lines) held
  names name b found := by
    have before : (⟨compiled.locals⟩ : Scope).find? name = some b := found
    have after : (⟨whole.locals⟩ : Scope).find? name = some b := Scope.findGrown locals before
    exact after
  slots i member slot refers := by
    obtain ⟨entry,held⟩ := methodSlots ok i member slot refers
    exact ⟨entry,held,prefixAt locals held⟩
  properties i member n calls := by
    obtain ⟨p,held⟩ := methodAccessors ok i member n calls
    have viewed : (compiled.accessors.map view)[n]? = some (view p) := by
      rw [List.getElem?_map,held,Option.map_some]
    have later := prefixAt accessors viewed
    rw [List.getElem?_map] at later
    obtain ⟨q,there,same⟩ := Option.map_eq_some_iff.mp later
    exact ⟨p,q,held,there,same.symm⟩

end Operands

section Additions
variable {setup : CompileSetup} {method : Method} {queries : Nat} {whole : CompiledMethod}

theorem compileBodyAppend (setup : CompileSetup) (body more : List Stmt) (emitter : Emitter) :
    compileBody setup (body ++ more) emitter =
      compileBody setup body emitter >>= compileBody setup more := by
  induction body generalizing emitter with
  | nil => rfl
  | cons stmt rest ih => simp only [List.cons_append,compileBody,ih,bind_assoc]

theorem followedByFails {fault : CompileError}
    (failed : (compileMethod setup method queries).1 = .error fault) (more : List Stmt) :
    (compileMethod setup (method.followedBy more) queries).1 = .error fault := by
  rw [compileMethodPieces] at failed
  split at failed
  · cases failed
  · rename_i draft stopped
    cases failed
    simp only [compileMethodPieces,Method.followedBy,compileBodyAppend,EStateM.run_bind,stopped]

theorem followedByBegins {more : List Stmt}
    (ok : (compileMethod setup (method.followedBy more) queries).1 = .ok whole) :
    ∃ part, (compileMethod setup method queries).1 = .ok part ∧
      part.listing.instructions <+: whole.listing.instructions ∧
      part.listing.lines <+: whole.listing.lines ∧
      part.locals <+: whole.locals ∧ part.accessors <+: whole.accessors := by
  rw [compileMethodPieces] at ok
  split at ok
  · rename_i emitter draft finished
    cases ok
    simp only [Method.followedBy,compileBodyAppend] at finished
    obtain ⟨front,middle,begun,ends⟩ := bindOk finished
    obtain ⟨_,_,lowers⟩ := bodyLowers ends
    obtain ⟨instructions,lines⟩ := bodyTables ends
    refine ⟨⟨method.name,front.listing,middle.scope.locals,middle.accessors⟩,?_,instructions,
      lines,?_,?_⟩
    · simp only [compileMethodPieces,begun]
    · exact lowers.grows.locals
    · exact lowers.grows.accessors
  · cases ok

theorem methodIncrements {α : Type} {view : Property → α} {first second : Nat}
    (again : setup.lookup.RepeatsFrom first second)
    (seen : ∀ p q, setup.lookup.Counterparts first second p q → view p = view q)
    (more : List Stmt) :
    Increments view (compileMethod setup method first).1
      (compileMethod setup (method.followedBy more) second).1 := by
  -- alone from the first start, alone from the second, and then with the statements added
  have retraced := methodRetraces (t := ⟨setup.lookup,id,first,second⟩) ⟨rfl,rfl,rfl,again⟩ method
  simp only [method.movedNowhere] at retraced
  rcases retraced with ⟨fault,one,two⟩ | ⟨part,copy,one,two,together,listing⟩
  · rw [fault.movedNowhere] at two
    have failed := followedByFails two more
    rw [one,failed]
    exact ⟨fun _ same => same,fun _ same => by cases same⟩
  · refine ⟨?_,?_⟩
    · intro fault failed
      cases one.symm.trans failed
    · intro whole ok
      obtain ⟨found,also,instructions,lines,locals,accessors⟩ := followedByBegins ok
      cases two.symm.trans also
      have moved : Local.moved id = id := rfl
      have same := together.locals
      rw [moved,List.map_id] at same
      have listed := listing ⟨fun _ => rfl,trivial⟩
      refine ⟨part,one,.ofTables one (listed ▸ instructions) (listed ▸ lines)
        (same ▸ locals) ?_⟩
      rw [together.tables.columns seen]
      exact accessors.map view

end Additions

theorem laterStatementsChangeNothing (setup : CompileSetup) (method : Method) (more : List Stmt)
    (first second : Nat) :
    ((∀ n name,
        setup.lookup.resolve (first + n) name = setup.lookup.resolve (second + n) name) →
      Increments id (compileMethod setup method first).1
        (compileMethod setup (method.followedBy more) second).1) ∧
    (setup.lookup.RepeatsFrom first second →
      Increments Property.face (compileMethod setup method first).1
        (compileMethod setup (method.followedBy more) second).1) := by
  refine ⟨?_,?_⟩
  · intro same
    exact methodIncrements (Lookup.repeatsSame same)
      (fun _ _ asked => Lookup.sameCounterparts same asked) more
  · intro again
    exact methodIncrements again (fun _ _ asked => again.face asked) more

def keepsProperty : Method :=
  ⟨"main",[.declare "x" (.property "a" .start) .start],.start⟩

def writesKept : List Stmt :=
  [.assign (.property "b" .start) (.localRef "x" .start) .start,
    .evaluate (.localRef "y" .start) .start]

theorem keptPropertyStaysFirst :
    Lookup.fresh.RepeatsFrom 0 4 ∧
    (∃ part whole, (compileMethod ⟨.fresh,{}⟩ keepsProperty 0).1 = .ok part ∧
      (compileMethod ⟨.fresh,{}⟩ (keepsProperty.followedBy (writesKept.take 1)) 4).1 =
        .ok whole ∧
      whole.accessors.length = 2 ∧ part.Begins Property.face whole) ∧
    ∀ more, (compileMethod ⟨.fresh,{}⟩
        ((keepsProperty.followedBy writesKept).followedBy more) 0).1 =
      .error (.undefinedVariable "y" .start) := by
  have again := Lookup.freshRepeats 0 4
  refine ⟨again,?_,?_⟩
  · have added := (laterStatementsChangeNothing ⟨.fresh,{}⟩ keepsProperty (writesKept.take 1) 0 4).2
    obtain ⟨part,made,begins⟩ := (added again).begins _ rfl
    exact ⟨part,_,made,rfl,rfl,begins⟩
  · intro more
    have added := (laterStatementsChangeNothing ⟨.fresh,{}⟩ (keepsProperty.followedBy writesKept)
      more 0 0).1
    exact (added fun _ _ => rfl).fails _ rfl

end ScriptMachine
