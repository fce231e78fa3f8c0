import ScriptMachine.Proofs.HostContract
/-! Writes to the built-in properties. A built-in property answers a value in the
same way wherever it is written: it refuses the value, or it sets one field of the
environment to something that the value alone determines. So a write may be repeated,
and writes that set different fields may be exchanged. -/
namespace ScriptMachine

inductive FieldChange where
  | errorLevel (v : Value)
  | workingDir (path : String)
  | titleMatchMode (mode : TitleMatchMode)
  | titleMatchSlow (slow : Bool)
  deriving DecidableEq, Repr

def FieldChange.apply : FieldChange → Environment → Environment
  | errorLevel v, env => { env with errorLevel := v }
  | workingDir path, env => { env with workingDir := path }
  | titleMatchMode mode, env => { env with titleMatchMode := mode }
  | titleMatchSlow slow, env => { env with titleMatchSlow := slow }

def Surroundings.changed (s : Surroundings) (change : FieldChange) : Surroundings :=
  { s with environment := change.apply s.environment }

inductive Response where
  | refusal (e : NativeError)
  | change (c : FieldChange)
  | nothing
  deriving DecidableEq, Repr

def Response.outcome (s : Surroundings) : Response → EStateM.Result NativeError Surroundings Unit
  | refusal e => .error e s
  | change c => .ok () (s.changed c)
  | nothing => .ok () s

namespace Value

def word (v : Value) : String :=
  Text.trimmed v.toText

def NamesSpeed (v : Value) (slow : Bool) : Prop :=
  Text.fold v.word = if slow then "slow" else "fast"

def NamesMode (v : Value) : TitleMatchMode → Prop
  | .startsWith => v.word = "1"
  | .contains => v.word = "2"
  | .exact => v.word = "3"
  | .regex => Text.fold v.word = "regex"

theorem speedNamed {v : Value} {slow : Bool} :
    speedOfWord? v.word = some slow ↔ v.NamesSpeed slow := by
  have words : Text.fold "slow" = "slow" ∧ Text.fold "fast" = "fast" := ⟨rfl,rfl⟩
  simp only [speedOfWord?,Text.sameFolded,words.1,words.2,NamesSpeed,beq_iff_eq]
  split
  · rename_i slowly
    cases slow <;> simp [slowly]
  · split
    · rename_i fast
      cases slow <;> simp [fast]
    · cases slow <;> simp_all

theorem modeNamed {v : Value} {mode : TitleMatchMode} :
    TitleMatchMode.ofWord? v.word = some mode ↔ v.NamesMode mode := by
  have word : Text.fold "regex" = "regex" := rfl
  have figures : Text.fold "1" ≠ "regex" ∧ Text.fold "2" ≠ "regex" ∧ Text.fold "3" ≠ "regex" := by
    decide
  simp only [TitleMatchMode.ofWord?,Text.sameFolded,word,beq_iff_eq]
  repeat' split
  all_goals cases mode <;> simp_all [NamesMode]

theorem speedIsNoMode {v : Value} {slow : Bool} {mode : TitleMatchMode}
    (speed : v.NamesSpeed slow) : ¬ v.NamesMode mode := by
  intro named
  unfold NamesSpeed at speed
  cases mode with
  | startsWith | contains | exact =>
    rw [show v.word = _ from named] at speed
    cases slow <;> exact absurd speed (by decide)
  | regex =>
    rw [show Text.fold v.word = _ from named] at speed
    cases slow <;> exact absurd speed (by decide)

end Value

namespace Property

inductive Answers (host : Host) (v : Value) : Property → Response → Prop where
  | level : Answers host v errorLevel (.change (.errorLevel v))
  | directory (known : host.isDirectory v.toText = true) :
      Answers host v workingDir (.change (.workingDir v.toText))
  | noDirectory (unknown : host.isDirectory v.toText = false) (message : String) :
      Answers host v workingDir (.refusal (.invalidValue workingDir.name message))
  | mode {mode : TitleMatchMode} (named : v.NamesMode mode) :
      Answers host v titleMatchMode (.change (.titleMatchMode mode))
  | speedAsMode {slow : Bool} (named : v.NamesSpeed slow) :
      Answers host v titleMatchMode (.change (.titleMatchSlow slow))
  | noMode (speeds : ∀ slow, ¬ v.NamesSpeed slow) (modes : ∀ mode, ¬ v.NamesMode mode)
      (message : String) :
      Answers host v titleMatchMode (.refusal (.invalidValue titleMatchMode.name message))
  | speed {slow : Bool} (named : v.NamesSpeed slow) :
      Answers host v titleMatchSpeed (.change (.titleMatchSlow slow))
  | noSpeed (speeds : ∀ slow, ¬ v.NamesSpeed slow) (message : String) :
      Answers host v titleMatchSpeed (.refusal (.invalidValue titleMatchSpeed.name message))
  | fixedName : Answers host v scriptName .nothing
  | fixedTicks : Answers host v tickCount .nothing

theorem modeAnswers (host : Host) (v : Value) : ∃ response, titleMatchMode.Answers host v response ∧
    ∀ s, (titleMatchMode.write host v).run s = response.outcome s := by
  have written : titleMatchMode.write host v = SetterRef.writeTitleMatchMode v := rfl
  rw [written]
  unfold SetterRef.writeTitleMatchMode
  split
  · rename_i slow named
    exact ⟨_,.speedAsMode (Value.speedNamed.mp named),fun s => rfl⟩
  · rename_i mode _ named
    exact ⟨_,.mode (Value.modeNamed.mp named),fun s => rfl⟩
  · rename_i noSpeed noMode
    refine ⟨_,.noMode ?_ ?_ _,fun s => rfl⟩
    · intro slow named
      cases noSpeed.symm.trans (Value.speedNamed.mpr named)
    · intro mode named
      cases noMode.symm.trans (Value.modeNamed.mpr named)

theorem speedAnswers (host : Host) (v : Value) :
    ∃ response, titleMatchSpeed.Answers host v response ∧
      ∀ s, (titleMatchSpeed.write host v).run s = response.outcome s := by
  have written : titleMatchSpeed.write host v = SetterRef.writeTitleMatchSpeed v := rfl
  rw [written]
  unfold SetterRef.writeTitleMatchSpeed
  split
  · rename_i slow named
    exact ⟨_,.speed (Value.speedNamed.mp named),fun s => rfl⟩
  · rename_i noSpeed
    refine ⟨_,.noSpeed ?_ _,fun s => rfl⟩
    intro slow named
    cases noSpeed.symm.trans (Value.speedNamed.mpr named)

theorem directoryAnswers (host : Host) (v : Value) :
    ∃ response, workingDir.Answers host v response ∧
      ∀ s, (workingDir.write host v).run s = response.outcome s := by
  have written : workingDir.write host v = SetterRef.writeWorkingDir host v := rfl
  simp only [written,SetterRef.writeWorkingDir]
  split
  · rename_i known
    exact ⟨_,.directory known,fun s => rfl⟩
  · rename_i unknown
    exact ⟨_,.noDirectory (Bool.eq_false_iff.mpr unknown) _,fun s => rfl⟩

theorem builtinAnswers {p : Property} (builtin : p ∈ builtins) (host : Host) (v : Value) :
    ∃ response, p.Answers host v response ∧ ∀ s, (p.write host v).run s = response.outcome s := by
  simp only [builtins,List.mem_cons,List.not_mem_nil,or_false] at builtin
  rcases builtin with rfl | rfl | rfl | rfl | rfl | rfl
  · exact ⟨_,.level,fun s => rfl⟩
  · exact directoryAnswers host v
  · exact modeAnswers host v
  · exact speedAnswers host v
  · exact ⟨_,.fixedName,fun s => rfl⟩
  · exact ⟨_,.fixedTicks,fun s => rfl⟩

end Property

def answer {ε σ α : Type} : EStateM.Result ε σ α → Except ε α
  | .ok a _ => .ok a
  | .error e _ => .error e

structure Exchange (one other : EStateM NativeError Surroundings Unit) (s : Surroundings) :
    Prop where
  first : answer (one.run (lastState (other.run s))) = answer (one.run s)
  second : answer (other.run (lastState (one.run s))) = answer (other.run s)
  last : lastState (other.run (lastState (one.run s))) = lastState (one.run (lastState (other.run s)))

namespace Response

theorem answerAnywhere (response : Response) (s t : Surroundings) :
    answer (response.outcome s) = answer (response.outcome t) := by
  cases response <;> rfl

theorem changedTwice (s : Surroundings) (c : FieldChange) : (s.changed c).changed c = s.changed c := by
  cases c <;> rfl

theorem outcomeTwice (response : Response) (s : Surroundings) :
    response.outcome (lastState (response.outcome s)) = response.outcome s := by
  cases response with
  | refusal | nothing => rfl
  | change c => exact congrArg (EStateM.Result.ok ()) (changedTwice s c)

theorem exchange {one other : EStateM NativeError Surroundings Unit} {mine its : Response}
    (first : ∀ s, one.run s = mine.outcome s) (second : ∀ s, other.run s = its.outcome s)
    (apart : ∀ s, lastState (its.outcome (lastState (mine.outcome s))) =
      lastState (mine.outcome (lastState (its.outcome s)))) (s : Surroundings) :
    Exchange one other s := by
  refine ⟨?_,?_,?_⟩
  · rw [first,first]
    exact mine.answerAnywhere _ _
  · rw [second,second]
    exact its.answerAnywhere _ _
  · rw [first,second,second,first]
    exact apart s

end Response

namespace Property

theorem builtinTwice {p : Property} (builtin : p ∈ builtins) (host : Host) (v : Value)
    (s : Surroundings) :
    (p.write host v).run (lastState ((p.write host v).run s)) = (p.write host v).run s := by
  obtain ⟨response,_,written⟩ := builtinAnswers builtin host v
  rw [written,written,response.outcomeTwice]

theorem modeTextNames (mode : TitleMatchMode) : (Value.string mode.text).NamesMode mode := by
  cases mode <;> rfl

theorem speedTextNames (slow : Bool) : (Value.string (speedText slow)).NamesSpeed slow := by
  cases slow <;> rfl

theorem modeWritten (host : Host) {v : Value} {mode : TitleMatchMode} (named : v.NamesMode mode)
    (s : Surroundings) :
    (titleMatchMode.write host v).run s = (Response.change (.titleMatchMode mode)).outcome s := by
  have read : TitleMatchMode.read? v.toText = some mode := Value.modeNamed.mpr named
  have other : speedOfWord? (Text.trimmed v.toText) = none := by
    refine Option.eq_none_iff_forall_ne_some.mpr ?_
    intro slow speed
    exact Value.speedIsNoMode (Value.speedNamed.mp speed) named
  have written : SetterRef.writeTitleMatchMode v =
      SetterRef.modifyEnvironment fun env => { env with titleMatchMode := mode } := by
    unfold SetterRef.writeTitleMatchMode
    rw [other,read]
  exact congrArg (·.run s) written

theorem speedWritten (host : Host) {v : Value} {slow : Bool} (named : v.NamesSpeed slow)
    (s : Surroundings) :
    (titleMatchSpeed.write host v).run s = (Response.change (.titleMatchSlow slow)).outcome s := by
  have read : speedOfWord? (Text.trimmed v.toText) = some slow := Value.speedNamed.mpr named
  have written : SetterRef.writeTitleMatchSpeed v =
      SetterRef.modifyEnvironment fun env => { env with titleMatchSlow := slow } := by
    unfold SetterRef.writeTitleMatchSpeed
    rw [read]
  exact congrArg (·.run s) written

theorem speedResponse {host : Host} {v : Value} {response : Response}
    (answers : titleMatchSpeed.Answers host v response) :
    (∃ slow, response = .change (.titleMatchSlow slow)) ∨ ∃ e, response = .refusal e := by
  generalize same : titleMatchSpeed = p at answers
  cases answers with
  | speed => exact .inl ⟨_,rfl⟩
  | noSpeed => exact .inr ⟨_,rfl⟩
  | level | directory | noDirectory | mode | speedAsMode | noMode | fixedName | fixedTicks =>
    exact absurd same (by decide)

theorem modeExchange (host : Host) {v : Value} {mode : TitleMatchMode} (named : v.NamesMode mode)
    (w : Value) (s : Surroundings) :
    Exchange (titleMatchMode.write host v) (titleMatchSpeed.write host w) s := by
  obtain ⟨response,answers,written⟩ := speedAnswers host w
  refine Response.exchange (modeWritten host named) written ?_ s
  intro s
  rcases speedResponse answers with ⟨slow,rfl⟩ | ⟨e,rfl⟩
  · rfl
  · rfl

end Property

theorem builtinWritesSetOneField (host : Host) :
    (∀ p ∈ Property.builtins, ∀ v, ∃ response, p.Answers host v response ∧
      ∀ s, (p.write host v).run s = response.outcome s) ∧
    (∀ (v : Value) slow mode, ¬ (v.NamesSpeed slow ∧ v.NamesMode mode)) ∧
    (∀ p ∈ [Property.titleMatchMode,Property.titleMatchSpeed], ∀ v s,
      (p.write host v).run (lastState ((p.write host v).run s)) = (p.write host v).run s) ∧
    (∀ p ∈ [Property.titleMatchMode,Property.titleMatchSpeed], ∀ s, ∃ reading,
      p.read host s.environment s.heap = some reading ∧
        (p.write host reading.value).run s = .ok () s) ∧
    ∀ v w mode s, v.NamesMode mode →
      Exchange (Property.titleMatchMode.write host v) (Property.titleMatchSpeed.write host w) s := by
  refine ⟨?_,?_,?_,?_,?_⟩
  · intro p builtin v
    exact Property.builtinAnswers builtin host v
  · rintro v slow mode ⟨speed,named⟩
    exact Value.speedIsNoMode speed named
  · intro p chosen v s
    refine Property.builtinTwice ?_ host v s
    simp only [List.mem_cons,List.not_mem_nil,or_false] at chosen
    rcases chosen with rfl | rfl <;> decide
  · intro p chosen s
    simp only [List.mem_cons,List.not_mem_nil,or_false] at chosen
    rcases chosen with rfl | rfl
    · exact ⟨_,rfl,Property.modeWritten host (Property.modeTextNames s.environment.titleMatchMode) s⟩
    · exact ⟨_,rfl,Property.speedWritten host (Property.speedTextNames s.environment.titleMatchSlow) s⟩
  · intro v w mode s named
    exact Property.modeExchange host named w s

def rootOnly : Host where
  isDirectory path := path == "/"
  ticks := 0
  getter _ _ heap := ⟨.null,heap⟩
  setter _ _ _ := pure ()

theorem paddedNamesExchange :
    (Value.string "\tREGEX ").NamesMode .regex ∧
    (Property.titleMatchMode.write rootOnly (.string "\tREGEX ")).run ⟨{},{}⟩ =
      .ok () ⟨{ titleMatchMode := .regex },{}⟩ ∧
    Exchange (Property.titleMatchMode.write rootOnly (.string "\tREGEX "))
      (Property.titleMatchSpeed.write rootOnly (.string " sLOW")) ⟨{},{}⟩ := by
  obtain ⟨_,_,_,_,exchange⟩ := builtinWritesSetOneField rootOnly
  have named : (Value.string "\tREGEX ").NamesMode .regex := by
    change Text.fold (Value.word _) = "regex"
    decide
  exact ⟨named,Property.modeWritten rootOnly named _,exchange _ _ .regex _ named⟩

end ScriptMachine
