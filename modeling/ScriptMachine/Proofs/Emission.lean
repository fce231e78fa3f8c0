import ScriptMachine.Proofs.Pieces
/-! The emitter. What the emitting compiler leaves in the emitter, instruction by
instruction, is the code that the pieces give as lists, and it binds, records and
fails as they do. -/
namespace ScriptMachine

theorem AssemblyM.runDrafting {α : Type} (step : CompileM α) (a : Assembly) :
    (drafting step).run a =
      match step.run a.draft with
      | .ok v draft => .ok v { a with draft := draft }
      | .error fault draft => .error fault { a with draft := draft } :=
  rfl

/-- The end of a run that emits beside the end of one that gives its code. A run
that fails may have emitted some of its code. -/
inductive Stamped {α β : Type} (emitter : Emitter) (code : β → List Instruction) (value : β → α) :
    EStateM.Result CompileError Draft β → EStateM.Result CompileError Assembly α → Prop where
  | done (b : β) (after : Draft) :
      Stamped emitter code value (.ok b after) (.ok (value b) ⟨after,emitter.emitAll (code b)⟩)
  | failed (fault : CompileError) (after : Draft) (left : Emitter) :
      Stamped emitter code value (.error fault after) (.error fault ⟨after,left⟩)

/-- Behind code that is emitted already, a step emits the rest of what the other gives. -/
def Writes {α β : Type} (before : List Instruction) (code : β → List Instruction) (value : β → α)
    (emits : AssemblyM α) (gives : CompileM β) : Prop :=
  ∀ draft emitter, Stamped emitter code value (gives.run draft)
    (emits.run ⟨draft,emitter.emitAll before⟩)

namespace Writes
variable {α β γ δ : Type} {before : List Instruction} {code : β → List Instruction}
  {value : β → α} {emits : AssemblyM α} {gives : CompileM β}

theorem framed (writes : Writes [] code value emits gives) (before : List Instruction) :
    Writes before (fun b => before ++ code b) value emits gives := by
  intro draft emitter
  have behind := writes draft (emitter.emitAll before)
  change Stamped _ _ _ (gives.run draft) (emits.run ⟨draft,emitter.emitAll before⟩) at behind
  generalize gives.run draft = given,
    emits.run ⟨draft,emitter.emitAll before⟩ = emitted at behind ⊢
  cases behind with
  | done b after =>
    rw [← emitter.emitAllAppend]
    exact .done b after
  | failed fault after left => exact .failed fault after left

theorem bind {after : γ → List Instruction} {result : γ → δ} {next : α → AssemblyM δ}
    {follows : β → CompileM γ} (writes : Writes before code value emits gives)
    (others : ∀ b, Writes (code b) after result (next (value b)) (follows b)) :
    Writes before after result (emits >>= next) (gives >>= follows) := by
  intro draft emitter
  have first := writes draft emitter
  simp only [EStateM.run_bind]
  generalize gives.run draft = given,
    emits.run ⟨draft,emitter.emitAll before⟩ = emitted at first ⊢
  cases first with
  | done b middle => exact others b middle emitter
  | failed fault middle left => exact .failed fault middle left

theorem emit {i : Instruction} {next : Unit → AssemblyM α}
    (writes : Writes (before ++ [i]) code value (next ()) gives) :
    Writes before code value (AssemblyM.emit i >>= next) gives := by
  intro draft emitter
  have emitted := writes draft emitter
  rw [emitter.emitAllSnoc] at emitted
  exact emitted

theorem draft {step : CompileM γ} {next : γ → AssemblyM α} {follows : γ → CompileM β}
    (writes : ∀ c, Writes before code value (next c) (follows c)) :
    Writes before code value (AssemblyM.drafting step >>= next) (step >>= follows) := by
  intro draft emitter
  simp only [EStateM.run_bind,AssemblyM.runDrafting]
  cases step.run draft with
  | ok c middle => exact writes c middle emitter
  | error fault middle => exact .failed fault middle _

theorem pure {b : β} (whole : code b = before) :
    Writes before code value (Pure.pure (value b)) (Pure.pure b) := by
  intro draft emitter
  rw [← whole]
  exact .done b draft

theorem giving {form : β → γ} {whole : γ → List Instruction} {result : γ → α}
    (writes : Writes before code value emits gives) (codes : ∀ b, whole (form b) = code b)
    (values : ∀ b, result (form b) = value b) :
    Writes before whole result emits (gives >>= fun b => Pure.pure (form b)) := by
  intro draft emitter
  have first := writes draft emitter
  simp only [EStateM.run_bind]
  generalize gives.run draft = given,
    emits.run ⟨draft,emitter.emitAll before⟩ = emitted at first ⊢
  cases first with
  | done b after =>
    rw [← values,← codes]
    exact .done (form b) after
  | failed fault after left => exact .failed fault after left

theorem fail (fault : CompileError) : Writes before code value (throw fault) (throw fault) :=
  fun draft _ => .failed fault draft _

end Writes

theorem Writes.piece {before code : List Instruction} {type : StaticType} (whole : code = before) :
    Writes before Piece.code Piece.type (Pure.pure type) (Pure.pure ⟨code,type⟩) :=
  .pure whole

abbrev WritesPiece (emits : AssemblyM StaticType) (gives : CompileM Piece) : Prop :=
  Writes [] Piece.code Piece.type emits gives

namespace WritesPiece
variable {emits : AssemblyM StaticType} {gives : CompileM Piece}

theorem coerce (before : List Instruction) (top wanted : StaticType) (span : Span) :
    Writes before (before ++ ·) (fun _ => ()) (AssemblyM.coerce top wanted span)
      (CompileM.coerce top wanted span) := by
  unfold AssemblyM.coerce CompileM.coerce
  cases Coercion.find? top wanted with
  | none => exact .fail _
  | some coercion =>
    intro draft emitter
    have emitted : Stamped emitter (before ++ ·) (fun _ => ()) (.ok coercion.code draft) _ :=
      .done coercion.code draft
    rw [emitter.emitAllAppend] at emitted
    exact emitted

theorem converted (writes : WritesPiece emits gives) (before : List Instruction)
    (wanted : StaticType) (span : Span) :
    Writes before (before ++ ·) (fun _ => ()) (AssemblyM.converted wanted span emits)
      (CompileM.converted wanted span gives) := by
  refine (writes.framed before).bind ?_
  intro piece
  exact (coerce (before ++ piece.code) piece.type wanted span).giving
    (fun conversion => (List.append_assoc before piece.code conversion).symm) (fun _ => rfl)

theorem assignLocal (writes : WritesPiece emits gives) (options : CompileOptions)
    (form : AssignForm) (name : String) (span valueSpan : Span) :
    WritesPiece (AssemblyM.assignLocal options form name span valueSpan emits)
      (CompileM.assignLocal options form name span valueSpan gives) := by
  refine .draft fun binding => ?_
  refine (writes.converted [] binding.entry.type valueSpan).bind fun code => ?_
  cases form with
  | statement => exact .emit (.piece rfl)
  | expression => exact .emit (.emit (.piece (by simp)))

theorem assignStored {keyEmits : AssemblyM StaticType} {keyGives : CompileM Piece}
    (keys : WritesPiece keyEmits keyGives) (writes : WritesPiece emits gives)
    (keySpan valueSpan : Span) :
    WritesPiece (AssemblyM.assignStored keySpan valueSpan keyEmits emits)
      (CompileM.assignStored keySpan valueSpan keyGives gives) := by
  refine .emit ((keys.converted _ .string keySpan).bind fun keyCode => ?_)
  refine (writes.converted _ .object valueSpan).bind fun valueCode => ?_
  exact .emit (.piece (by simp))

theorem assignProperty (writes : WritesPiece emits gives) (lookup : Lookup) (name : String)
    (span valueSpan : Span) :
    WritesPiece (AssemblyM.assignProperty lookup name span valueSpan emits)
      (CompileM.assignProperty lookup name span valueSpan gives) := by
  refine .draft fun found => ?_
  cases found with
  | none => exact .emit (.piece rfl)
  | some p =>
    refine (writes.converted [] .object valueSpan).bind fun code => ?_
    exact .draft fun index => .emit (.emit (.piece (by simp)))

theorem readProperty (lookup : Lookup) (name : String) (span : Span) :
    WritesPiece (AssemblyM.readProperty lookup name span)
      (CompileM.readProperty lookup name span) := by
  refine .draft fun found => ?_
  cases found with
  | none => exact .emit (.piece rfl)
  | some p => exact .draft fun index => .emit (.piece rfl)

theorem discarded (writes : WritesPiece emits gives) :
    Writes [] id (fun _ => ()) (emits >>= AssemblyM.discard)
      (gives >>= fun piece => pure piece.discarded) := by
  refine writes.bind fun piece => ?_
  unfold AssemblyM.discard Piece.discarded
  split
  · exact .pure rfl
  · exact .emit (.pure (b := piece.code ++ [.pop]) rfl)

end WritesPiece

namespace Expr

theorem assembled (setup : CompileSetup) (e : Expr) :
    WritesPiece (e.assemble setup) (e.compile setup) := by
  refine compile.induct (fun e => WritesPiece (e.assemble setup) (e.compile setup))
    (fun element index items => ∀ before, Writes before (before ++ ·) (fun _ => ())
      (assembleItems setup element index items) (compileItems setup element index items))
    ?constant ?null ?localRef ?argument ?indexed ?property ?arrayOf ?assignLocal ?assignIndexed
    ?assignProperty ?unassignable ?noItems ?moreItems e
  case constant =>
    intro c span
    rw [assemble,compile]
    exact .emit (.piece rfl)
  case null =>
    intro span
    rw [assemble,compile]
    exact .emit (.piece rfl)
  case localRef =>
    intro name span
    rw [assemble,compile]
    exact .draft fun binding => .emit (.piece rfl)
  case argument =>
    intro index span
    rw [assemble,compile]
    exact .emit (.piece rfl)
  case indexed =>
    intro base key span keys
    rw [assemble,compile]
    refine .emit ((keys.converted _ .string key.span).bind fun keyCode => ?_)
    exact .emit (.piece (by simp))
  case property =>
    intro name span
    rw [assemble,compile]
    exact .readProperty setup.lookup name span
  case arrayOf =>
    intro name items span filled
    rw [assemble,compile]
    exact .draft fun element => .emit (.emit ((filled element _).bind fun code =>
      .piece (by simp)))
  case assignLocal =>
    intro name place value span values
    rw [assemble,compile]
    exact values.assignLocal setup.options .expression name place value.span
  case assignIndexed =>
    intro base key place value span keys values
    rw [assemble,compile]
    exact keys.assignStored values key.span value.span
  case assignProperty =>
    intro name place value span values
    rw [assemble,compile]
    exact values.assignProperty setup.lookup name place value.span
  case unassignable =>
    intro target value span notLocal notIndexed notProperty
    rw [assemble,compile]
    · exact .fail _
    all_goals assumption
  case noItems =>
    intro element index before
    rw [assembleItems,compileItems]
    exact .pure (b := []) (List.append_nil before)
  case moreItems =>
    intro element index item items first others before
    rw [assembleItems,compileItems]
    refine .emit (.emit ((first.converted _ element item.span).bind fun code => .emit ?_))
    refine (others _).giving (fun rest => ?_) (fun _ => rfl)
    simp

theorem assignmentAssembled (setup : CompileSetup) (form : AssignForm) (target value : Expr) :
    WritesPiece (assembleAssignment setup form target value)
      (compileAssignment setup form target value) := by
  cases target with
  | localRef name place =>
    exact (value.assembled setup).assignLocal setup.options form name place value.span
  | indexed base key place =>
    exact (key.assembled setup).assignStored (value.assembled setup) key.span value.span
  | property name place =>
    exact (value.assembled setup).assignProperty setup.lookup name place value.span
  | _ => exact .fail _

end Expr

theorem Stmt.assembled (setup : CompileSetup) (stmt : Stmt) (draft : Draft) (emitter : Emitter) :
    Stamped (emitter.setLine stmt.span.line) id (fun _ => ()) ((stmt.compile setup).run draft)
      ((stmt.assemble setup).run ⟨draft,emitter⟩) := by
  cases stmt with
  | declare name init span =>
    have writes : Writes [] id (fun _ => ())
        (do
          let type ← init.assemble setup
          let binding ← AssemblyM.drafting (CompileM.declareLocal name type span)
          AssemblyM.emit (.storeLocal binding.slot))
        ((declare name init span).compile setup) :=
      (init.assembled setup).bind fun piece => .draft fun binding =>
        .emit (.pure (b := piece.code ++ [.storeLocal binding.slot]) rfl)
    exact writes draft (emitter.setLine span.line)
  | assign target value span =>
    exact (Expr.assignmentAssembled setup .statement target value).discarded draft
      (emitter.setLine span.line)
  | evaluate e span => exact (e.assembled setup).discarded draft (emitter.setLine span.line)

inductive Emitted :
    EStateM.Result CompileError Draft Emitter → EStateM.Result CompileError Assembly Unit → Prop where
  | done (emitter : Emitter) (after : Draft) : Emitted (.ok emitter after) (.ok () ⟨after,emitter⟩)
  | failed (fault : CompileError) (after : Draft) (left : Emitter) :
      Emitted (.error fault after) (.error fault ⟨after,left⟩)

theorem bodyAssembled (setup : CompileSetup) (body : List Stmt) (draft : Draft)
    (emitter : Emitter) :
    Emitted ((compileBody setup body emitter).run draft)
      ((assembleBody setup body).run ⟨draft,emitter⟩) := by
  induction body generalizing draft emitter with
  | nil => exact .done emitter draft
  | cons stmt rest ih =>
    have first := stmt.assembled setup draft emitter
    simp only [compileBody,assembleBody,EStateM.run_bind]
    generalize (stmt.compile setup).run draft = given,
      (stmt.assemble setup).run ⟨draft,emitter⟩ = emitted at first ⊢
    cases first with
    | done code middle => exact ih middle _
    | failed fault middle left => exact .failed fault middle left

theorem compileMethodPieces (setup : CompileSetup) (method : Method) (queries : Nat) :
    compileMethod setup method queries =
      match (compileBody setup method.body { recordsLines := setup.options.recordsLines }).run
          { queries := queries } with
      | .ok emitter draft =>
        (.ok ⟨method.name,emitter.listing,draft.scope.locals,draft.accessors⟩,draft.queries)
      | .error fault draft => (.error fault,draft.queries) := by
  have both := bodyAssembled setup method.body { queries := queries }
    { recordsLines := setup.options.recordsLines }
  unfold compileMethod
  generalize (compileBody setup method.body { recordsLines := setup.options.recordsLines }).run
      { queries := queries } = given,
    (assembleBody setup method.body).run
      ⟨{ queries := queries },{ recordsLines := setup.options.recordsLines }⟩ = emitted at both ⊢
  cases both <;> rfl

end ScriptMachine
