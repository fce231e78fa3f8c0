import ScriptMachine.Proofs.Retracing
/-! Lines. A listing is made of one block to a statement, and every instruction of a
block has the line of its statement, or all lines are zero. Beyond that places leave
no trace in the code. -/
namespace ScriptMachine

def blockLines (recordsLines : Bool) : List Stmt → List (List Instruction) → List Nat
  | stmt :: rest, code :: blocks =>
    List.replicate code.length (if recordsLines then stmt.span.line else 0) ++
      blockLines recordsLines rest blocks
  | _, _ => []

theorem blockLinesUnlined (body : List Stmt) (blocks : List (List Instruction)) :
    ∀ line ∈ blockLines false body blocks, line = 0 := by
  induction body generalizing blocks with
  | nil => simp [blockLines]
  | cons stmt rest ih =>
    cases blocks with
    | nil => simp [blockLines]
    | cons code blocks =>
      intro line member
      rcases List.mem_append.mp member with here | later
      · exact List.eq_of_mem_replicate here
      · exact ih blocks line later

def Method.upTo (method : Method) (count : Nat) : Method :=
  { method with body := method.body.take count }

section Blocks
variable {setup : CompileSetup}

theorem stmtStamped {stmt : Stmt} {a after : Assembly}
    (ok : (stmt.assemble setup).run a = .ok () after) :
    ∃ code, (stmt.compile setup).run a.draft = .ok code after.draft ∧
      after.emitter = (a.emitter.setLine stmt.span.line).emitAll code := by
  have stamped := stmt.assembled setup a.draft a.emitter
  generalize given : (stmt.compile setup).run a.draft = outcome at stamped
  rw [ok] at stamped
  cases stamped with
  | done code middle => exact ⟨code,rfl,rfl⟩

theorem bodyBlocks {body : List Stmt} {d after : Draft} {emitter done : Emitter}
    (ok : (compileBody setup body emitter).run d = .ok done after) :
    ∃ blocks : List (List Instruction), blocks.length = body.length ∧
      ∀ k, ∃ part middle, (compileBody setup (body.take k) emitter).run d = .ok part middle ∧
        part.listing.instructions = emitter.listing.instructions ++ (blocks.take k).flatten ∧
        part.listing.lines = emitter.listing.lines ++
          blockLines emitter.recordsLines (body.take k) (blocks.take k) := by
  induction body generalizing emitter d with
  | nil =>
    refine ⟨[],rfl,?_⟩
    intro k
    rw [List.take_nil,List.take_nil]
    exact ⟨emitter,d,rfl,by simp,by simp [blockLines]⟩
  | cons stmt rest ih =>
    obtain ⟨code,middle,first,others⟩ := bindOk ok
    obtain ⟨blocks,sized,fronts⟩ := ih others
    refine ⟨code :: blocks,congrArg (· + 1) sized,?_⟩
    intro k
    cases k with
    | zero => exact ⟨emitter,d,rfl,by simp,by simp [blockLines]⟩
    | succ k =>
      obtain ⟨part,last,compiled,instructions,lines⟩ := fronts k
      refine ⟨part,last,?_,?_,?_⟩
      · rw [List.take_succ_cons]
        simp only [compileBody,EStateM.run_bind,first]
        exact compiled
      · rw [instructions,Emitter.instructionsEmitAll,List.append_assoc]
        rfl
      · rw [lines,Emitter.linesEmitAll,List.append_assoc]
        rfl

theorem bodyTables {body : List Stmt} {d after : Draft} {emitter done : Emitter}
    (ok : (compileBody setup body emitter).run d = .ok done after) :
    emitter.listing.instructions <+: done.listing.instructions ∧
      emitter.listing.lines <+: done.listing.lines := by
  obtain ⟨blocks,_,fronts⟩ := bodyBlocks ok
  obtain ⟨part,middle,compiled,instructions,lines⟩ := fronts body.length
  rw [List.take_length] at compiled
  cases ok.symm.trans compiled
  exact ⟨⟨_,instructions.symm⟩,⟨_,lines.symm⟩⟩

theorem methodBlocks {method : Method} {queries : Nat} {compiled : CompiledMethod}
    (ok : (compileMethod setup method queries).1 = .ok compiled) :
    ∃ blocks : List (List Instruction), blocks.length = method.body.length ∧
      compiled.listing.instructions = blocks.flatten ∧
      compiled.listing.lines = blockLines setup.options.recordsLines method.body blocks ∧
      ∀ k, ∃ part, (compileMethod setup (method.upTo k) queries).1 = .ok part ∧
        part.listing.instructions = (blocks.take k).flatten := by
  rw [compileMethodPieces] at ok
  split at ok
  · rename_i emitter draft finished
    cases ok
    obtain ⟨blocks,sized,fronts⟩ := bodyBlocks finished
    obtain ⟨part,middle,whole,instructions,lines⟩ := fronts method.body.length
    rw [List.take_length] at whole
    cases finished.symm.trans whole
    rw [← sized,List.take_length] at instructions
    rw [List.take_length,← sized,List.take_length] at lines
    refine ⟨blocks,sized,instructions,lines,?_⟩
    intro k
    obtain ⟨part,middle,front,begun,_⟩ := fronts k
    refine ⟨⟨method.name,part.listing,middle.scope.locals,middle.accessors⟩,?_,begun⟩
    simp only [compileMethodPieces,Method.upTo,front]
  · cases ok

end Blocks

def nowhere : Span → Span := fun _ => .start

inductive SameButPlaces :
    Except CompileError CompiledMethod → Except CompileError CompiledMethod → Prop where
  | ok {one two : CompiledMethod}
      (instructions : two.listing.instructions = one.listing.instructions)
      (locals : two.locals.map (·.moved nowhere) = one.locals.map (·.moved nowhere))
      (faces : two.accessors.map (·.face) = one.accessors.map (·.face)) :
      SameButPlaces (.ok one) (.ok two)
  | error {one two : CompileError} (same : two.moved nowhere = one.moved nowhere) :
      SameButPlaces (.error one) (.error two)

theorem methodSameButPlaces {setup other : CompileSetup} {method another : Method}
    {first second : Nat} (lookups : other.lookup = setup.lookup)
    (types : other.options.implicitType = setup.options.implicitType)
    (unplaced : another.moved nowhere = method.moved nowhere)
    (again : setup.lookup.RepeatsFrom first second) :
    SameButPlaces (compileMethod setup method first).1 (compileMethod other another second).1 := by
  have itself : setup.lookup.RepeatsFrom second second := Lookup.repeatsSame fun _ _ => rfl
  -- both are held against what the second setup makes of the tree without places
  have left := methodRetraces (t := ⟨setup.lookup,nowhere,first,second⟩)
    ⟨rfl,lookups,types,again⟩ method
  have right := methodRetraces (t := ⟨setup.lookup,nowhere,second,second⟩)
    ⟨lookups,lookups,rfl,itself⟩ another
  simp only [unplaced] at right
  rcases left with ⟨fault,one,moved⟩ | ⟨made,bare,one,moved,together,_⟩
  · rcases right with ⟨other,two,same⟩ | ⟨made,bare,two,same,_⟩
    · rw [one,two]
      exact .error (Except.error.inj (same.symm.trans moved))
    · cases moved.symm.trans same
  · rcases right with ⟨other,two,same⟩ | ⟨also,bare,two,same,beside,_⟩
    · cases moved.symm.trans same
    · cases moved.symm.trans same
      rw [one,two]
      refine .ok ?_ ?_ ?_
      · exact beside.instructions.symm.trans together.instructions
      · exact beside.locals.symm.trans together.locals
      · have faces := together.tables.columns fun _ _ asked => again.face asked
        have others := beside.tables.columns fun _ _ asked => itself.face asked
        exact others.trans faces.symm

theorem linesFollowStatements :
    (∀ setup stmt before after, (Stmt.assemble setup stmt).run before = .ok () after →
      ∃ code, after.emitter.listing.instructions =
          before.emitter.listing.instructions ++ code ∧
        after.emitter.listing.lines = before.emitter.listing.lines ++
          List.replicate code.length (if before.emitter.recordsLines then stmt.span.line else 0)) ∧
    (∀ setup method queries compiled, (compileMethod setup method queries).1 = .ok compiled →
      compiled.listing.lines.length = compiled.listing.instructions.length ∧
      (setup.options.recordsLines = false → ∀ line ∈ compiled.listing.lines, line = 0) ∧
      ∃ blocks : List (List Instruction), blocks.length = method.body.length ∧
        compiled.listing.instructions = blocks.flatten ∧
        compiled.listing.lines = blockLines setup.options.recordsLines method.body blocks ∧
        ∀ k, ∃ part, (compileMethod setup (method.upTo k) queries).1 = .ok part ∧
          part.listing.instructions = (blocks.take k).flatten) ∧
    ∀ (setup other : CompileSetup) (method another : Method) (first second : Nat),
      other.lookup = setup.lookup → other.options.implicitType = setup.options.implicitType →
      another.moved nowhere = method.moved nowhere →
      first = second ∨ setup.lookup.RepeatsFrom first second →
      SameButPlaces (compileMethod setup method first).1
        (compileMethod other another second).1 := by
  refine ⟨?_,?_,?_⟩
  · intro setup stmt before after ok
    obtain ⟨code,_,emitted⟩ := stmtStamped ok
    rw [emitted,Emitter.instructionsEmitAll,Emitter.linesEmitAll]
    exact ⟨code,rfl,rfl⟩
  · intro setup method queries compiled ok
    obtain ⟨blocks,sized,instructions,lines,fronts⟩ := methodBlocks ok
    refine ⟨compiled.listing.paired,?_,blocks,sized,instructions,lines,fronts⟩
    intro unlined
    rw [lines,unlined]
    exact blockLinesUnlined method.body blocks
  · intro setup other method another first second lookups types unplaced starts
    refine methodSameButPlaces lookups types unplaced ?_
    rcases starts with rfl | again
    · exact Lookup.repeatsSame fun _ _ => rfl
    · exact again

def spread (place inside : Span) : Method :=
  ⟨"main",[.declare "x" (.assign (.localRef "y" inside) (.property "p" inside) inside) place,
    .evaluate (.localRef "x" place) inside],place⟩

theorem spreadKeepsLines : ∃ compiled,
    (compileMethod ⟨.fresh,{}⟩ (spread ⟨3,1,0⟩ ⟨9,4,2⟩) 0).1 = .ok compiled ∧
    compiled.listing.lines = [3,3,3,3,3,9,9] ∧
    (∃ blocks : List (List Instruction), blocks.length = 2 ∧
      compiled.listing.instructions = blocks.flatten ∧
      compiled.listing.lines = blockLines true (spread ⟨3,1,0⟩ ⟨9,4,2⟩).body blocks) ∧
    Lookup.fresh.RepeatsFrom 0 5 ∧
    SameButPlaces (compileMethod ⟨.fresh,{}⟩ (spread ⟨3,1,0⟩ ⟨9,4,2⟩) 0).1
      (compileMethod ⟨.fresh,{ recordsLines := false }⟩ (spread .start ⟨2,2,1⟩) 5).1 := by
  obtain ⟨_,lines,places⟩ := linesFollowStatements
  have again := Lookup.freshRepeats 0 5
  obtain ⟨compiled,ok,stamped⟩ : ∃ compiled,
      (compileMethod ⟨.fresh,{}⟩ (spread ⟨3,1,0⟩ ⟨9,4,2⟩) 0).1 = .ok compiled ∧
        compiled.listing.lines = [3,3,3,3,3,9,9] := exceptOk (by decide +kernel)
  obtain ⟨_,_,blocks,sized,instructions,rows,_⟩ := lines _ _ 0 compiled ok
  exact ⟨compiled,ok,stamped,⟨blocks,sized,instructions,rows⟩,again,
    places _ _ _ _ 0 5 rfl rfl rfl (.inr again)⟩

end ScriptMachine
