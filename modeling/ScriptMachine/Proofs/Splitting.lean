import Mathlib.Data.List.Forall2
import ScriptMachine.Proofs.CompilerCorrectness
import ScriptMachine.Proofs.Framing
import ScriptMachine.Proofs.FreshArrays
/-! One script as two methods. Bodies that share no name of a variable may be run
one after the other as two methods, or as one method with both bodies. If the two
runs succeed then so does the one, and what they leave is equal but for the
numbers of arrays: the second method has an array of arguments of its own, and
where it is joined to the first it has the one of the first. -/
namespace ScriptMachine

def EvalState.frame (s : EvalState) : Frame :=
  ⟨s.table.map (·.name),s.table.map (·.value),[]⟩

section Finishing
variable {host : Host} {setup : CompileSetup} {method : Method} {queries limit : Nat}
variable {compiled : CompiledMethod} {arguments : List Value} {context after : Context}
variable {frame : Frame}

theorem peakOfMethod (typed : setup.options.implicitType ≠ .void)
    (ok : (compileMethod setup method queries).1 = .ok compiled) :
    peak 0 compiled.listing.instructions = bodyNeed setup.lookup method.body queries := by
  obtain ⟨draft,lowers,_,_⟩ := methodLowers ok
  exact (lowers.measured typed nofun 0).peak.trans (Nat.zero_add _)

theorem frameNames (ran : (execute host limit compiled arguments).run context = .ok frame after) :
    frame.names = compiled.locals.map (·.name) := by
  rw [CompiledMethod.executeRun] at ran
  split at ran
  · cases ran
    rfl
  · cases ran

theorem finishesWithEvaluation (sane : Sane True host setup.options)
    (ok : (compileMethod setup method queries).1 = .ok compiled)
    (objects : context.store.HoldsObjects) :
    (execute host limit compiled arguments).run context = .ok frame after ↔
      bodyNeed setup.lookup method.body queries ≤ limit ∧
        ∃ s, method.evaluate host setup queries arguments context = .ok () s ∧
          frame = s.frame ∧ after = s.context := by
  have top := peakOfMethod (sane.implicit trivial).1 ok
  have room : (compiled.start arguments context).stack.length ≤
      (compiled.setting host limit context).limit := Nat.zero_le limit
  rw [CompiledMethod.executeRun]
  cases methodRefines sane ok limit arguments fun _ => objects with
  | done u s m ran evaluated holds =>
    obtain ⟨stack,same,tables⟩ := holds
    obtain ⟨names,_,values⟩ := tables.columns
    have ended : method.evaluate host setup queries arguments context = .ok () s := evaluated
    have fits : peak 0 compiled.listing.instructions ≤ limit := finishedFits room ran
    rw [top] at fits
    rw [ran,ended]
    simp only [stack,same,EvalState.frame,← names,← values]
    constructor
    · rintro ⟨⟩
      exact ⟨fits,s,rfl,rfl,rfl⟩
    · rintro ⟨_,other,⟨⟩,rfl,rfl⟩
      rfl
  | failed e s m ran evaluated same =>
    have ended : method.evaluate host setup queries arguments context = .error (.native e) s :=
      evaluated
    rw [ran,ended]
    exact ⟨nofun,nofun⟩
  | overflow place m ran short =>
    have above : limit < peak 0 compiled.listing.instructions := overflowOutgrows room ran
    rw [top] at above
    rw [ran]
    exact ⟨nofun,fun finished => absurd finished.1 (Nat.not_le.mpr above)⟩
  | mismatch expected found place m ran loose => exact absurd trivial loose

end Finishing

theorem evalBodyAppend (ev : Evaluator) (first second : List Stmt) :
    evalBody ev (first ++ second) = evalBody ev first >>= fun _ => evalBody ev second := by
  induction first with
  | nil => simp [evalBody]
  | cons stmt rest ih => simp [evalBody,ih]

theorem ArrayCell.Linked.self {r : Links} {c : ArrayCell}
    (own : ∀ v ∈ c.items, ∀ id, v.ref? = some id → r id id) : c.Linked r c := by
  refine ⟨rfl,rfl,?_⟩
  intro n v w first second
  cases first.symm.trans second
  exact .self (own v (Array.mem_of_getElem? first))

theorem Copies.sameNames {r : Links} {table copy : List Variable} (copies : Copies r table copy) :
    copy.map (·.name) = table.map (·.name) := by
  induction copies with
  | nil => rfl
  | cons value rest ih => simp only [List.map_cons,ih]

theorem Copies.sameValues {r : Links} {h k : Heap} (joins : r.Joins h k)
    {table copy : List Variable} (copies : Copies r table copy) :
    List.Forall₂ (Value.SameIn h k) (table.map (·.value)) (copy.map (·.value)) := by
  induction copies with
  | nil => exact .nil
  | cons value rest ih => exact .cons (joins.same value) ih

structure Context.SameIn (c d : Context) : Prop where
  store : ∀ key, Option.Rel (Value.SameIn c.heap d.heap) (c.store.get? key) (d.store.get? key)
  level : c.environment.errorLevel.SameIn c.heap d.heap d.environment.errorLevel
  others : { c.environment with errorLevel := .null } = { d.environment with errorLevel := .null }

namespace Twins

theorem Linked.sameIn {twins : Twins} {r : Links} {s t : EvalState} (linked : twins.Linked r s t) :
    s.context.SameIn t.context := by
  refine ⟨?_,linked.heap.same linked.environment.level,linked.environment.others⟩
  intro key
  have found := linked.store key
  generalize s.context.store.get? key = left at found ⊢
  generalize t.context.store.get? key = right at found ⊢
  cases found with
  | some values => exact .some (linked.heap.same values)
  | none => exact .none

end Twins

def Context.given (context : Context) (arguments : List Value) : Context :=
  { context with
    heap := (context.heap.alloc ⟨.object,(arguments.map Value.asObject).toArray⟩).2 }

section Starting
variable {own : ArrayId → Prop} {arguments : List Value} {context : Context}

theorem givenArguments (context : Context) (arguments : List Value) :
    (context.given arguments).heap.cell? context.heap.size =
      some ⟨.object,(arguments.map Value.asObject).toArray⟩ := by
  simp only [Context.given,Heap.cellAlloc,if_pos]

theorem sizeGiven (context : Context) (arguments : List Value) :
    (context.given arguments).heap.size = context.heap.size + 1 :=
  context.heap.sizeAlloc _

theorem argumentBelow (whole : context.Whole own arguments) {v : Value} {id : ArrayId}
    (member : v ∈ (arguments.map Value.asObject).toArray) (refers : v.ref? = some id) :
    id < context.heap.size := by
  obtain ⟨argument,given,rfl⟩ := List.mem_map.mp (List.mem_toArray.mp member)
  rw [Value.asObjectRef] at refers
  exact whole.given (.inr (.inl ⟨argument,given,refers⟩))

def Heap.Same (heap : Heap) : Links :=
  fun a b => a = b ∧ a < heap.size

theorem sameGiven {id : ArrayId} (known : id < context.heap.size) :
    (context.given arguments).heap.Same id id :=
  ⟨rfl,sizeGiven context arguments ▸ Nat.lt_succ_of_lt known⟩

theorem wholeJoins (whole : context.Whole own arguments) :
    (context.given arguments).heap.Same.Joins (context.given arguments).heap
      (context.given arguments).heap := by
  rintro a _ ⟨rfl,known⟩
  obtain ⟨cell,there⟩ := Heap.cellThere known
  refine ⟨cell,cell,there,there,.self fun v member id refers => sameGiven ?_⟩
  rcases Heap.holdsAlloc ⟨cell,v,there,member,refers⟩ with before | ⟨_,item,inside,refers⟩
  · exact whole.held before
  · exact argumentBelow whole inside refers

theorem startLinked (host : Host) (setup : CompileSetup) (whole : context.Whole own arguments)
    (early queries : Nat) :
    Twins.Linked ⟨host,setup,own,context.heap.size,context.heap.size,[]⟩
      (context.given arguments).heap.Same ⟨[],context.given arguments,early⟩
      ⟨[],context.given arguments,queries⟩ := by
  have same {id : ArrayId} (given : Given own arguments context id) :
      (context.given arguments).heap.Same id id := sameGiven (whole.given given)
  refine ⟨fun id mine => same (.inl mine),⟨rfl,?_⟩,⟨[],rfl,.nil⟩,?_,⟨?_,rfl⟩,wholeJoins whole⟩
  · exact sizeGiven context arguments ▸ Nat.lt_succ_self _
  · intro key
    cases found : (context.given arguments).store.get? key with
    | none => exact .none
    | some v => exact .some (.self fun id refers => same (.inr (.inr (.key found refers))))
  · exact .self fun id refers => same (.inr (.inr (.level refers)))

theorem restartLinked {host : Host} {setup : CompileSetup} {r : Links} {s t : EvalState}
    (whole : context.Whole own arguments)
    {early queries : Nat}
    (reached : Twins.Reached ⟨host,setup,own,context.heap.size,context.heap.size,[]⟩
      (context.given arguments).heap.Same ⟨[],context.given arguments,early⟩
      ⟨[],context.given arguments,queries⟩ r s t) (late : Nat) :
    Twins.Linked ⟨host,setup,own,s.context.heap.size,context.heap.size,t.table⟩
      (fun a b => r a b ∨ a = s.context.heap.size ∧ b = context.heap.size)
      ⟨[],s.context.given arguments,late⟩ t := by
  have linked := reached.linked
  have more {a b : ArrayId} (known : r a b) :
      r a b ∨ a = s.context.heap.size ∧ b = context.heap.size := .inl known
  have cells : ArrayCell.Linked r ⟨.object,(arguments.map Value.asObject).toArray⟩
      ⟨.object,(arguments.map Value.asObject).toArray⟩ :=
    .self fun v member id refers =>
      reached.grows.more (sameGiven (argumentBelow whole member refers))
  have heap : r.Joins (s.context.given arguments).heap t.context.heap :=
    linked.heap.within (Heap.withinAlloc _ _) (Heap.withinRefl _)
  exact ⟨fun id mine => more (linked.own id mine),.inr ⟨rfl,rfl⟩,⟨[],(List.append_nil _).symm,.nil⟩,
    linked.store.mono more,linked.environment.mono more,
    heap.add (givenArguments s.context _) (reached.right _ _ (givenArguments context _)) cells⟩

end Starting

/-- What two runs leave, one after the other, in what one run leaves. The variables
of the first are compared as they were when it finished. -/
structure SplitsInto (one two : Frame) (middle last : Context) (frame : Frame) (after : Context) :
    Prop where
  names : frame.names = one.names ++ two.names
  locals : ∃ kept more, frame.locals = kept ++ more ∧
    List.Forall₂ (Value.SameIn middle.heap after.heap) one.locals kept ∧
    List.Forall₂ (Value.SameIn last.heap after.heap) two.locals more
  stack : frame.stack = []
  context : last.SameIn after

section Joining
variable {host : Host} {setup : CompileSetup} {own : ArrayId → Prop}
variable {first second method : Method} {early late queries : Nat}
variable {arguments : List Value} {context : Context} {s next : EvalState}

theorem joinedEvaluates (uniform : host.Uniform own) (consistent : setup.lookup.Consistent host)
    (whole : context.Whole own arguments) (joined : method.body = first.body ++ second.body)
    (left : first.evaluate host setup early arguments context = .ok () s)
    (right : second.evaluate host setup late arguments s.context = .ok () next)
    (apart : ∀ name ∈ bodyNames second.body, name ∉ s.table.map (·.name)) :
    ∃ t, method.evaluate host setup queries arguments context = .ok () t ∧
      SplitsInto s.frame next.frame s.context next.context t.frame t.context := by
  obtain ⟨r,_,t,ran,reached,_⟩ := (startLinked host setup whole early queries).bodyCarries uniform
    consistent first.body (fun _ _ => nofun) left
  obtain ⟨copy,table,copies⟩ := reached.linked.table
  have names : t.table.map (·.name) = s.table.map (·.name) := by
    rw [table]
    exact copies.sameNames
  have free : ∀ name ∈ bodyNames second.body, name ∉ t.table.map (·.name) := by
    rw [names]
    exact apart
  obtain ⟨q,_,last,ended,further,_⟩ := (restartLinked whole reached late).bodyCarries uniform
    consistent second.body free right
  obtain ⟨more,all,others⟩ := further.linked.table
  have kept : r.Joins s.context.heap last.context.heap :=
    reached.linked.heap.within (Heap.withinRefl _) further.right
  refine ⟨last,?_,?_,⟨copy.map Variable.value,more.map Variable.value,?_,copies.sameValues kept,
    others.sameValues further.linked.heap⟩,rfl,further.linked.sameIn⟩
  · change (evalBody ⟨host,setup,context.heap.size⟩ method.body).run
      ⟨[],context.given arguments,queries⟩ = .ok () last
    rw [joined,evalBodyAppend]
    exact (runBindOk ran _).trans ended
  · simp only [EvalState.frame,all,List.map_append,names,others.sameNames]
  · simp only [EvalState.frame,all,table,List.nil_append,List.map_append]

end Joining

theorem splitRunsAsOne {setup : CompileSetup} {first second method : Method}
    {early late queries : Nat} {one two : CompiledMethod}
    (typed : setup.options.implicitType ≠ .void) (other : setup.options.implicitType ≠ .string)
    (steady : setup.lookup.Steady)
    (left : (compileMethod setup first early).1 = .ok one)
    (right : (compileMethod setup second late).1 = .ok two)
    (joined : method.body = first.body ++ second.body)
    (apart : ∀ name ∈ bodyNames first.body, name ∉ bodyNames second.body)
    (few : accessorsUsed setup method queries < 0x100000000) :
    ∃ compiled, (compileMethod setup method queries).1 = .ok compiled ∧
      compiled.locals = one.locals ++ two.locals ∧
      ∀ {host own limit arguments context middle last} {frame more : Frame}, host.Uniform own →
        setup.lookup.Consistent host → context.Whole own arguments →
        context.store.HoldsObjects →
        (execute host limit one arguments).run context = .ok frame middle →
        (execute host limit two arguments).run middle = .ok more last →
        ∃ all after, (execute host limit compiled arguments).run context = .ok all after ∧
          SplitsInto frame more middle last all after := by
  obtain ⟨compiled,ok,locals⟩ := joinedCompiles typed steady left right joined apart few
  refine ⟨compiled,ok,locals,?_⟩
  intro host own limit arguments context middle last frame more uniform consistent whole objects
    before later
  have sane : Sane True host setup.options :=
    ⟨uniform.kept.weaken fun _ _ => Heap.Within.sameShapes,fun _ => ⟨typed,other⟩⟩
  have kept : middle.store.HoldsObjects := by
    have held := executeObjects host limit one arguments objects
    rwa [before] at held
  have names := frameNames before
  obtain ⟨low,s,evaluated,rfl,rfl⟩ := (finishesWithEvaluation sane left objects).mp before
  obtain ⟨under,next,continued,rfl,rfl⟩ := (finishesWithEvaluation sane right kept).mp later
  have free : ∀ name ∈ bodyNames second.body, name ∉ s.table.map (·.name) := by
    intro name mentioned member
    rw [show s.table.map (·.name) = one.locals.map (·.name) from names] at member
    exact apart name (localsMentioned typed steady left name member) mentioned
  obtain ⟨t,ended,splits⟩ := joinedEvaluates uniform consistent whole joined evaluated continued free
  have enough : bodyNeed setup.lookup method.body queries ≤ limit := by
    rw [joined,bodyNeedAppend steady,bodyNeedSteady steady first.body queries early,
      bodyNeedSteady steady second.body queries late]
    exact Nat.max_le.mpr ⟨low,under⟩
  exact ⟨t.frame,t.context,(finishesWithEvaluation sane ok objects).mpr
    ⟨enough,t,ended,rfl,rfl⟩,splits⟩

theorem levelHostUniform (own : ArrayId → Prop) : levelHost.Uniform own := by
  constructor
  · exact levelHostKeeps Heap.withinRefl
  · intro routine r s t mine linked
    exact ⟨r,r.growsRefl _ _,linked.heap,linked.environment.level⟩
  · intro routine owner r s t after v w mine linked values written
    have wrote (v w : Value) (values : v.Linked r w) (e f : Environment) (around : e.Linked r f) :
        Environment.Linked r { e with errorLevel := v } { f with errorLevel := w } :=
      ⟨values,around.others⟩
    have level := wrote v w values _ _ linked.environment
    cases values with
    | plain alone =>
      cases v with
      | null => cases written
      | array | boxed | int | long | decimal | bool | string | store =>
        cases written
        exact ⟨r,_,rfl,r.growsRefl _ _,level,linked.heap⟩
    | array known =>
      cases written
      exact ⟨r,_,rfl,r.growsRefl _ _,level,linked.heap⟩
    | boxed inner =>
      cases written
      exact ⟨r,_,rfl,r.growsRefl _ _,level,linked.heap⟩

def keepsItsArguments : Method :=
  ⟨"first",[.declare "a" (.argument 0 .start) .start,
    .assign (.indexed (.null .start) (.constant (.string "k") .start) .start)
      (.assign (.property "Level" .start) (.localRef "a" .start) .start) .start],.start⟩

def collectsArguments : Method :=
  ⟨"second",[.declare "b" (.arrayOf "object" [.argument 0 .start,.property "Level" .start,
    .indexed (.null .start) (.constant (.string "K") .start) .start] .start) .start],.start⟩

def keepsAndCollects : Method :=
  ⟨"whole",keepsItsArguments.body ++ collectsArguments.body,.start⟩

theorem emptyWhole (n : Int32) : ({} : Context).Whole (fun _ => False) [.int n] := by
  constructor
  · rintro a b ⟨cell,item,found,_⟩
    cases found
  · rintro id (never | ⟨v,argument,refers⟩ | names)
    · cases never
    · cases List.mem_singleton.mp argument
      cases refers
    · cases names with
      | key found refers => cases found
      | level refers => cases refers

-- the two runs make three arrays, two of them of arguments, and the one run makes two
theorem keepsAndCollectsAsOne :
    (levelSetup.options.implicitType ≠ .void ∧ levelSetup.options.implicitType ≠ .string ∧
      levelSetup.lookup.Steady ∧ levelSetup.lookup.Consistent levelHost ∧
      levelHost.Uniform (fun _ => False) ∧ ({} : Context).Whole (fun _ => False) [.int 7] ∧
      ({} : Context).store.HoldsObjects ∧
      (∀ name ∈ bodyNames keepsItsArguments.body, name ∉ bodyNames collectsArguments.body) ∧
      accessorsUsed levelSetup keepsAndCollects 0 < 0x100000000) ∧
    ∃ one two compiled frame more all middle last after,
      (compileMethod levelSetup keepsItsArguments 0).1 = .ok one ∧
      (compileMethod levelSetup collectsArguments 0).1 = .ok two ∧
      (compileMethod levelSetup keepsAndCollects 0).1 = .ok compiled ∧
      (execute levelHost 8 one [.int 7]).run {} = .ok frame middle ∧
      (execute levelHost 8 two [.int 7]).run middle = .ok more last ∧
      (execute levelHost 8 compiled [.int 7]).run {} = .ok all after ∧
      (frame.locals,more.locals) = ([.array 0],[.array 2]) ∧
      all.locals = [.array 0,.array 1] ∧ SplitsInto frame more middle last all after := by
  have typed : levelSetup.options.implicitType ≠ .void := StaticType.noConfusion
  have other : levelSetup.options.implicitType ≠ .string := StaticType.noConfusion
  have steady : levelSetup.lookup.Steady := fun _ _ _ => rfl
  have consistent : levelSetup.lookup.Consistent levelHost := ⟨fun _ _ _ => rfl,fun _ _ _ => rfl⟩
  have uniform := levelHostUniform fun _ => False
  have whole := emptyWhole 7
  have objects : ({} : Context).store.HoldsObjects := Store.emptyObjects
  have apart : ∀ name ∈ bodyNames keepsItsArguments.body,
      name ∉ bodyNames collectsArguments.body := by decide +kernel
  have few : accessorsUsed levelSetup keepsAndCollects 0 < 0x100000000 := by decide +kernel
  obtain ⟨one,two,left,right,both⟩ : ∃ one two,
      (compileMethod levelSetup keepsItsArguments 0).1 = .ok one ∧
      (compileMethod levelSetup collectsArguments 0).1 = .ok two ∧
      values? (fun (first,second) => (Frame.locals first,Frame.locals second)) ((do
        let first ← execute levelHost 8 one [.int 7]
        let second ← execute levelHost 8 two [.int 7]
        pure (first,second)).run {}) = some ([.array 0],[.array 2]) :=
    ⟨_,_,rfl,rfl,by decide +kernel⟩
  have fewer : ((compileMethod levelSetup keepsAndCollects 0).1.toOption.bind fun compiled =>
      values? Frame.locals ((execute levelHost 8 compiled [.int 7]).run {})) =
        some [.array 0,.array 1] := by decide +kernel
  obtain ⟨pair,last,ran,locals⟩ := valuesOk both
  obtain ⟨frame,middle,before,ran⟩ := bindOk ran
  obtain ⟨more,_,later,ran⟩ := bindOk ran
  cases ran
  obtain ⟨compiled,ok,_,splits⟩ :=
    splitRunsAsOne typed other steady left right rfl apart few
  obtain ⟨all,after,ended,agrees⟩ := splits uniform consistent whole objects before later
  rw [ok] at fewer
  obtain ⟨_,_,same,values⟩ := valuesOk fewer
  cases ended.symm.trans same
  exact ⟨⟨typed,other,steady,consistent,uniform,whole,objects,apart,few⟩,one,two,compiled,frame,
    more,all,middle,last,after,left,right,ok,before,later,ended,locals,values,agrees⟩

end ScriptMachine
