import ScriptMachine.Proofs.CompilerCorrectness
import ScriptMachine.Proofs.Respelling
/-! What a method whose keys are all literal can touch. Its run changes no key of
the store but those it assigns, and depends on none but those it reads or
assigns. -/
namespace ScriptMachine

def Access.key : Access → Expr
  | read key => key
  | write key => key

namespace Method

def Makes (lookup : Lookup) (method : Method) (access : Access) : Prop :=
  ∃ stmt ∈ method.body, stmt.Makes lookup access

def LiteralKeys (lookup : Lookup) (method : Method) : Prop :=
  ∀ access, method.Makes lookup access →
    ∃ text span, access.key = .constant (.string text) span

def ReadsKey (lookup : Lookup) (method : Method) (folded : String) : Prop :=
  ∃ text span, method.Makes lookup (.read (.constant (.string text) span)) ∧
    Text.fold text = folded

def WritesKey (lookup : Lookup) (method : Method) (folded : String) : Prop :=
  ∃ text span, method.Makes lookup (.write (.constant (.string text) span)) ∧
    Text.fold text = folded

end Method

def Store.AgreesOn (keys : String → Prop) (s t : Store) : Prop :=
  ∀ key, keys (Text.fold key) → s.get? key = t.get? key

def Store.SameHolding (key : String) (held : Option Value) (s t : Store) : Prop :=
  s = t ∧ s.get? key = held

theorem Expr.respelledSelf (e : Expr) (role : Role) : e.Respelled Eq role e := by
  refine nodes.induct (fun e => ∀ role, e.Respelled Eq role e)
    (fun items => ∀ e ∈ items, e.Respelled Eq .value e)
    ?indexed ?arrayOf ?assign ?constant ?null ?localRef ?argument ?property ?noItems ?moreItems
    e role
  case indexed =>
    intro base key span bases keys role
    exact .indexed (bases .value) (keys .key)
  case arrayOf =>
    intro name items span each role
    refine .arrayOf rfl ?_
    intro n e f first second
    cases first.symm.trans second
    exact each e (List.mem_of_getElem? first)
  case assign =>
    intro target value span targets values role
    exact .assign (targets .value) (values .value)
  case constant => exact fun c span role => .constant role c span
  case null => exact fun span role => .null role span
  case localRef => exact fun name span role => .localRef role name span
  case argument => exact fun index span role => .argument role index span
  case property => exact fun name span role => .property rfl
  case noItems =>
    intro e member
    cases member
  case moreItems =>
    intro item items first others e member
    cases member with
    | head => exact first .value
    | tail _ inside => exact others e inside

theorem bodyRespelledSelf (body : List Stmt) : BodyRespelled Eq body body := by
  induction body with
  | nil => exact .nil
  | cons stmt rest ih =>
    refine .cons ?_ ih
    cases stmt with
    | declare name init span => exact .declare (init.respelledSelf .value)
    | assign target value span =>
      exact .assign (target.respelledSelf .value) (value.respelledSelf .value)
    | evaluate e span => exact .evaluate (e.respelledSelf .value)

section Runs
variable {setup : CompileSetup} {method : Method} {queries : Nat} {compiled : CompiledMethod}
variable {agree : Store → Store → Prop}

theorem literalPermits (literal : method.LiteralKeys setup.lookup)
    (reads : ∀ text, method.ReadsKey setup.lookup (Text.fold text) →
      (Spot.key (Text.fold text)).Reads agree)
    (writes : ∀ text, method.WritesKey setup.lookup (Text.fold text) →
      (Spot.key (Text.fold text)).Writes agree) {access : Access}
    (made : method.Makes setup.lookup access) : access.Permitted agree := by
  obtain ⟨text,span,written⟩ := literal access made
  cases access with
  | read key =>
    cases written
    exact reads text ⟨text,span,made,rfl⟩
  | write key =>
    cases written
    exact writes text ⟨text,span,made,rfl⟩

theorem literalRunsAlike (ok : (compileMethod setup method queries).1 = .ok compiled)
    (literal : method.LiteralKeys setup.lookup)
    (reads : ∀ text, method.ReadsKey setup.lookup (Text.fold text) →
      (Spot.key (Text.fold text)).Reads agree)
    (writes : ∀ text, method.WritesKey setup.lookup (Text.fold text) →
      (Spot.key (Text.fold text)).Writes agree)
    (host : Host) (limit : Nat) (arguments : List Value) {c d : Context}
    (beside : c.Beside agree d) :
    Alike Eq (Context.Beside agree) (Context.Beside agree)
      ((execute host limit compiled arguments).run c)
      ((execute host limit compiled arguments).run d) := by
  have found : setup.lookup.FindsAlike Eq := by
    intro a b same query
    rw [same]
  have permitted : ∀ stmt ∈ method.body, ∀ access, stmt.Makes setup.lookup access →
      access.Permitted agree :=
    fun stmt member access made => literalPermits literal reads writes ⟨stmt,member,made⟩
  obtain ⟨_,⟨e,refused,_⟩ | ⟨first,second,left,right,same⟩⟩ :=
    (bodyRespelledSelf method.body).compiles found rfl permitted queries
  · cases ok.symm.trans refused
  · cases ok.symm.trans left
    cases ok.symm.trans right
    exact same.execute host limit arguments beside

end Runs

theorem storeNoninterference {setup : CompileSetup} {method : Method} {queries : Nat}
    {compiled : CompiledMethod} (ok : (compileMethod setup method queries).1 = .ok compiled)
    (literal : method.LiteralKeys setup.lookup) (host : Host) (limit : Nat)
    (arguments : List Value) (context : Context) :
    (∀ key, ¬ method.WritesKey setup.lookup (Text.fold key) →
      (lastState ((execute host limit compiled arguments).run context)).store.get? key =
        context.store.get? key) ∧
    ∀ (keys : String → Prop) (store : Store),
      (∀ folded, method.ReadsKey setup.lookup folded ∨ method.WritesKey setup.lookup folded →
        keys folded) →
      context.store.AgreesOn keys store →
      Alike Eq (Context.Beside (Store.AgreesOn keys)) (Context.Beside (Store.AgreesOn keys))
        ((execute host limit compiled arguments).run context)
        ((execute host limit compiled arguments).run { context with store := store }) := by
  refine ⟨?_,?_⟩
  · intro key outside
    have reads : ∀ text, method.ReadsKey setup.lookup (Text.fold text) →
        (Spot.key (Text.fold text)).Reads (Store.SameHolding key (context.store.get? key)) := by
      intro text _ s t near
      rw [near.1]
    have writes : ∀ text, method.WritesKey setup.lookup (Text.fold text) →
        (Spot.key (Text.fold text)).Writes (Store.SameHolding key (context.store.get? key)) := by
      intro text written s t v near
      have other : Text.fold (Text.fold text) ≠ Text.fold key := by
        intro same
        rw [Text.foldFold] at same
        exact outside (same ▸ written)
      refine ⟨by rw [near.1],?_⟩
      rw [Store.getSet,if_neg other]
      exact near.2
    have alike := literalRunsAlike ok literal reads writes host limit arguments
      (c := context) (d := context) ⟨rfl,rfl,rfl,rfl⟩
    exact alike.last.store.2
  · intro keys store covers near
    have reads : ∀ text, method.ReadsKey setup.lookup (Text.fold text) →
        (Spot.key (Text.fold text)).Reads (Store.AgreesOn keys) := by
      intro text read s t near
      refine near _ ?_
      rw [Text.foldFold]
      exact covers _ (.inl read)
    have writes : ∀ text, method.WritesKey setup.lookup (Text.fold text) →
        (Spot.key (Text.fold text)).Writes (Store.AgreesOn keys) := by
      intro text _ s t v near key inside
      rw [Store.getSet,Store.getSet,near key inside]
    exact literalRunsAlike ok literal reads writes host limit arguments ⟨rfl,rfl,near⟩

def copyThenWrite : Method :=
  ⟨"main",[
    .assign (.indexed (.null .start) (.constant (.string "Out") .start) .start)
      (.indexed (.null .start) (.constant (.string "IN") .start) .start) .start,
    .assign (.property "Level" .start)
      (.indexed (.null .start) (.constant (.string "in") .start) .start) .start],.start⟩

theorem copyThenWriteMakes {lookup : Lookup} {access : Access}
    (made : copyThenWrite.Makes lookup access) :
    access = .write (.constant (.string "Out") .start) ∨
      access = .read (.constant (.string "IN") .start) ∨
      access = .read (.constant (.string "in") .start) := by
  obtain ⟨stmt,member,made⟩ := made
  simp only [copyThenWrite,List.mem_cons,List.not_mem_nil,or_false] at member
  rcases member with rfl | rfl
  · cases made with
    | write => exact .inl rfl
    | inWrittenKey inner => cases inner
    | inStored inner =>
      cases inner with
      | read => exact .inr (.inl rfl)
      | inKey inner => cases inner
  · cases made with
    | inProperty writable inner =>
      cases inner with
      | read => exact .inr (.inr rfl)
      | inKey inner => cases inner

theorem copyThenWriteLiteral (lookup : Lookup) : copyThenWrite.LiteralKeys lookup := by
  intro access made
  rcases copyThenWriteMakes made with rfl | rfl | rfl
  · exact ⟨_,_,rfl⟩
  · exact ⟨_,_,rfl⟩
  · exact ⟨_,_,rfl⟩

theorem copyThenWriteKeys (lookup : Lookup) :
    (∀ folded, copyThenWrite.ReadsKey lookup folded → folded = "in") ∧
      ∀ folded, copyThenWrite.WritesKey lookup folded → folded = "out" := by
  constructor
  · intro folded reads
    obtain ⟨text,span,made,rfl⟩ := reads
    rcases copyThenWriteMakes made with same | same | same
    · cases same
    · cases same
      decide +kernel
    · cases same
      decide +kernel
  · intro folded writes
    obtain ⟨text,span,made,rfl⟩ := writes
    rcases copyThenWriteMakes made with same | same | same
    · cases same
      decide +kernel
    · cases same
    · cases same

def otherKept : Store :=
  ({} : Store).set "Other" (.string "kept")

-- null is refused by the property, so that both runs stop after they have set a key
theorem copyThenWriteConfined :
    copyThenWrite.LiteralKeys levelSetup.lookup ∧
    ∃ compiled, (compileMethod levelSetup copyThenWrite 0).1 = .ok compiled ∧
      failure? ((execute levelHost 8 compiled []).run {}) = some (.native (.other "Level")) ∧
      (lastState ((execute levelHost 8 compiled []).run { store := otherKept })).store.get? "OTHER" =
        some (.string "kept") ∧
      Alike Eq (Context.Beside (Store.AgreesOn (· ∈ ["in","out"])))
        (Context.Beside (Store.AgreesOn (· ∈ ["in","out"])))
        ((execute levelHost 8 compiled []).run {})
        ((execute levelHost 8 compiled []).run { store := otherKept }) := by
  have literal := copyThenWriteLiteral levelSetup.lookup
  obtain ⟨reads,writes⟩ := copyThenWriteKeys levelSetup.lookup
  obtain ⟨compiled,ok,stops⟩ : ∃ compiled,
      (compileMethod levelSetup copyThenWrite 0).1 = .ok compiled ∧
      failure? ((execute levelHost 8 compiled []).run {}) = some (.native (.other "Level")) :=
    ⟨_,rfl,by decide +kernel⟩
  have confined := storeNoninterference ok literal levelHost 8 []
  refine ⟨literal,compiled,ok,stops,?_,(confined {}).2 _ otherKept ?_ ?_⟩
  · rw [(confined { store := otherKept }).1 "OTHER"]
    · simp only [otherKept,Store.getSet]
      exact if_pos (by decide +kernel)
    · intro written
      exact absurd (writes _ written) (by decide +kernel)
  · intro folded touched
    rcases touched with read | written
    · simp [reads folded read]
    · simp [writes folded written]
  · intro key inside
    have other : Text.fold "Other" ≠ Text.fold key := by
      intro same
      rw [← same] at inside
      exact absurd inside (by decide +kernel)
    simp only [otherKept,Store.getSet,if_neg other]

end ScriptMachine
