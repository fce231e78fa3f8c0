import ScriptMachine.Proofs.TwinTrees
/-! Trees that differ in spelling only: in the names of properties, and in the
letter case of texts that stand directly as a key. Both compile to the same
code but for those keys, or both are refused with the same error. -/
namespace ScriptMachine

inductive Access where
  | read (key : Expr)
  | write (key : Expr)
  deriving Repr

/-- The accesses to the store that the code of an expression makes. No code is made
for the base of an access, nor for the value of a property that cannot be written. -/
inductive Expr.Makes (lookup : Lookup) : Expr → Access → Prop where
  | read {base key span} : Makes lookup (.indexed base key span) (.read key)
  | inKey {base key span a} (inner : Makes lookup key a) : Makes lookup (.indexed base key span) a
  | inItem {name items span item a} (member : item ∈ items) (inner : Makes lookup item a) :
      Makes lookup (.arrayOf name items span) a
  | inLocal {name place value span a} (inner : Makes lookup value a) :
      Makes lookup (.assign (.localRef name place) value span) a
  | write {base key place value span} :
      Makes lookup (.assign (.indexed base key place) value span) (.write key)
  | inWrittenKey {base key place value span a} (inner : Makes lookup key a) :
      Makes lookup (.assign (.indexed base key place) value span) a
  | inStored {base key place value span a} (inner : Makes lookup value a) :
      Makes lookup (.assign (.indexed base key place) value span) a
  | inProperty {name place value span a query p}
      (writable : lookup.resolveSetter query name = some p) (inner : Makes lookup value a) :
      Makes lookup (.assign (.property name place) value span) a

def Stmt.Makes (lookup : Lookup) : Stmt → Access → Prop
  | declare _ init _ => init.Makes lookup
  | assign target value span => (Expr.assign target value span).Makes lookup
  | evaluate e _ => e.Makes lookup

namespace Text

def SameLetter (c d : Char) : Prop :=
  c = d ∨ (65 ≤ c.toNat ∧ c.toNat ≤ 90 ∧ d.toNat = c.toNat + 32) ∨
    (65 ≤ d.toNat ∧ d.toNat ≤ 90 ∧ c.toNat = d.toNat + 32)

instance (c d : Char) : Decidable (SameLetter c d) := by
  unfold SameLetter
  infer_instance

def sameLetters : List Char → List Char → Prop
  | [], [] => True
  | c :: cs, d :: ds => SameLetter c d ∧ sameLetters cs ds
  | _, _ => False

def SameLetters (a b : String) : Prop :=
  sameLetters a.toList b.toList

theorem lowerSame (c d : Char) : c.toLower = d.toLower ↔ SameLetter c d := by
  have exact (a b : Char) : a = b ↔ a.toNat = b.toNat := by
    constructor
    · intro same
      rw [same]
    · intro same
      exact Char.toNat_inj.mp same
  unfold SameLetter
  rw [exact c.toLower,lowerNat,lowerNat,exact c d]
  split <;> split <;> omega

theorem foldSame (a b : String) : fold a = fold b ↔ SameLetters a b := by
  have mapped (cs ds : List Char) :
      cs.map Char.toLower = ds.map Char.toLower ↔ sameLetters cs ds := by
    induction cs generalizing ds with
    | nil => cases ds <;> simp [sameLetters]
    | cons c cs ih => cases ds <;> simp [sameLetters,lowerSame,ih]
  rw [SameLetters,← mapped,fold,fold]
  constructor
  · intro same
    simpa using congrArg String.toList same
  · intro same
    rw [same]

end Text

inductive Expr.Respelled (names : String → String → Prop) : Role → Expr → Expr → Prop where
  | constant (role c span) : Respelled names role (.constant c span) (.constant c span)
  | keyText {a b span} (letters : Text.SameLetters a b) :
      Respelled names .key (.constant (.string a) span) (.constant (.string b) span)
  | null (role span) : Respelled names role (.null span) (.null span)
  | localRef (role name span) : Respelled names role (.localRef name span) (.localRef name span)
  | argument (role index span) :
      Respelled names role (.argument index span) (.argument index span)
  | indexed {role base otherBase key otherKey span}
      (bases : Respelled names .value base otherBase) (keys : Respelled names .key key otherKey) :
      Respelled names role (.indexed base key span) (.indexed otherBase otherKey span)
  | property {role a b span} (named : names a b) :
      Respelled names role (.property a span) (.property b span)
  | arrayOf {role element items others span} (count : items.length = others.length)
      (each : ∀ (n : Nat) e f, items[n]? = some e → others[n]? = some f → Respelled names .value e f) :
      Respelled names role (.arrayOf element items span) (.arrayOf element others span)
  | assign {role target otherTarget value otherValue span}
      (targets : Respelled names .value target otherTarget)
      (values : Respelled names .value value otherValue) :
      Respelled names role (.assign target value span) (.assign otherTarget otherValue span)

inductive Stmt.Respelled (names : String → String → Prop) : Stmt → Stmt → Prop where
  | declare {name init other span} (inits : init.Respelled names .value other) :
      Respelled names (.declare name init span) (.declare name other span)
  | assign {target otherTarget value otherValue span}
      (targets : target.Respelled names .value otherTarget)
      (values : value.Respelled names .value otherValue) :
      Respelled names (.assign target value span) (.assign otherTarget otherValue span)
  | evaluate {e other span} (whole : e.Respelled names .value other) :
      Respelled names (.evaluate e span) (.evaluate other span)

inductive BodyRespelled (names : String → String → Prop) : List Stmt → List Stmt → Prop where
  | nil : BodyRespelled names [] []
  | cons {stmt other rest others} (first : stmt.Respelled names other)
      (more : BodyRespelled names rest others) :
      BodyRespelled names (stmt :: rest) (other :: others)

def Lookup.FindsAlike (lookup : Lookup) (names : String → String → Prop) : Prop :=
  ∀ a b, names a b → ∀ query, lookup.resolve query a = lookup.resolve query b

def Access.Permitted (agree : Store → Store → Prop) : Access → Prop
  | read key => key.spot.Reads agree
  | write key => key.spot.Writes agree

def Expr.Permitted (agree : Store → Store → Prop) (lookup : Lookup) (e : Expr) : Prop :=
  ∀ access, e.Makes lookup access → access.Permitted agree

def respelling (agree : Store → Store → Prop) (setup : CompileSetup)
    (names : String → String → Prop) : Contrast where
  setup := setup
  other := setup
  names := Eq
  spans := Eq
  asked := names
  served := Eq
  keys := Text.SameLetters
  reads spot := spot.Reads agree
  writes spot := spot.Writes agree
  drafts := Eq
  codes := Parallel agree

section Trees
variable {agree : Store → Store → Prop} {setup : CompileSetup} {names : String → String → Prop}

theorem respellingKeeps (found : setup.lookup.FindsAlike names) :
    (respelling agree setup names).Keeps where
  implicit := rfl
  find := by
    rintro d _ a _ rfl rfl
    have itself := relMap (r := Binding.Twin Eq) (f := id) (fun b => ⟨rfl,rfl,rfl⟩)
      (d.scope.find? a)
    rwa [Option.map_id] at itself
  bind := by
    rintro d _ a _ s _ type rfl rfl rfl
    exact ⟨⟨rfl,rfl,rfl⟩,rfl⟩
  ask := by
    rintro d _ rfl
    rfl
  getter := by
    rintro d _ a b rfl named
    simp only [respelling,Lookup.resolveGetter,found a b named]
    exact relSame _
  setter := by
    rintro d _ a b rfl named
    simp only [respelling,Lookup.resolveSetter,found a b named]
    exact relSame _
  place := by
    rintro d _ p _ rfl rfl
    rfl
  sized := by
    rintro d _ rfl
    rfl
  record := by
    rintro d _ p _ rfl rfl
    rfl
  nil := .nil
  append := .append
  same i _ plain := .one (.same i plain)
  spelled text := (Text.foldSame text text).mp rfl
  key _ letters := .one (.key ((Text.foldSame _ _).mpr letters))
  read _ reads := .one (.read reads)
  write _ writes := .one (.write writes)

structure Expr.RespelledTwin (agree : Store → Store → Prop) (setup : CompileSetup)
    (names : String → String → Prop) (role : Role) (e f : Expr) : Prop where
  span : e.span = f.span
  twin : e.Permitted agree setup.lookup → e.Twin (respelling agree setup names) role f
  assigned : ∀ (role : Role) {value other : Expr} (span : Span), value.span = other.span →
    (value.Permitted agree setup.lookup → value.Twin (respelling agree setup names) .value other) →
    (Expr.assign e value span).Permitted agree setup.lookup →
    (Expr.assign e value span).Twin (respelling agree setup names) role (.assign f other span)

theorem Expr.RespelledTwin.fixed {role : Role} {e f : Expr} (span : e.span = f.span)
    (kinds : f.kind = e.kind) (fixed : e.assignable = false) (alsoFixed : f.assignable = false)
    (twin : e.Permitted agree setup.lookup → e.Twin (respelling agree setup names) role f) :
    e.RespelledTwin agree setup names role f :=
  ⟨span,twin,fun role _ _ _ _ _ _ => .unassignable role rfl fixed alsoFixed kinds span⟩

theorem Expr.Respelled.twins {role : Role} {e f : Expr} (respelled : Respelled names role e f) :
    e.RespelledTwin agree setup names role f := by
  induction respelled with
  | constant role c span => exact .fixed rfl rfl rfl rfl fun _ => .constant role c rfl
  | keyText letters => exact .fixed rfl rfl rfl rfl fun _ => .keyText letters rfl
  | null role span => exact .fixed rfl rfl rfl rfl fun _ => .null role rfl
  | localRef role name span =>
    refine ⟨rfl,fun _ => .localRef role rfl rfl,?_⟩
    intro role value other span spans values permitted
    exact .assignLocal role rfl rfl rfl (values fun access made => permitted access (.inLocal made))
  | argument role index span => exact .fixed rfl rfl rfl rfl fun _ => .argument role index rfl
  | indexed bases keys ihBase ihKey =>
    refine ⟨rfl,?_,?_⟩
    · intro permitted
      exact .indexed _ rfl (ihKey.twin fun access made => permitted access (.inKey made))
        (permitted _ .read)
    · intro role value other span spans values permitted
      exact .assignStored role rfl
        (ihKey.twin fun access made => permitted access (.inWrittenKey made)) (permitted _ .write)
        (values fun access made => permitted access (.inStored made))
  | property named =>
    refine ⟨rfl,fun _ => .property _ named rfl,?_⟩
    intro role value other span spans values permitted
    exact .assignProperty role rfl named rfl spans fun query p writable =>
      values fun access made => permitted access (.inProperty writable made)
  | arrayOf count each ih =>
    refine .fixed rfl rfl rfl rfl fun permitted => .arrayOf _ _ rfl count ?_
    intro n e f one two
    exact (ih n e f one two).twin fun access made =>
      permitted access (.inItem (List.mem_of_getElem? one) made)
  | assign targets values ihTarget ihValue =>
    exact .fixed rfl rfl rfl rfl (ihTarget.assigned _ _ ihValue.span ihValue.twin)

end Trees

section Bodies
variable {agree : Store → Store → Prop} {setup : CompileSetup} {names : String → String → Prop}

theorem Stmt.Respelled.twin {stmt other : Stmt} (respelled : stmt.Respelled names other)
    (permitted : ∀ access, stmt.Makes setup.lookup access → access.Permitted agree) :
    stmt.Twin (respelling agree setup names) other := by
  cases respelled with
  | declare inits => exact .declare rfl rfl (inits.twins.twin permitted)
  | assign targets values =>
    have valued : Expr.RespelledTwin agree setup names .value _ _ := values.twins
    exact .assign rfl (targets.twins.assigned .value _ valued.span valued.twin permitted)
  | evaluate whole => exact .evaluate rfl (whole.twins.twin permitted)

theorem BodyRespelled.twins {body other : List Stmt} (respelled : BodyRespelled names body other)
    (permitted : ∀ stmt ∈ body, ∀ access, stmt.Makes setup.lookup access →
      access.Permitted agree) :
    List.Forall₂ (Stmt.Twin (respelling agree setup names)) body other := by
  induction respelled with
  | nil => exact .nil
  | cons first more ih =>
    exact .cons (first.twin (permitted _ List.mem_cons_self))
      (ih fun stmt member => permitted stmt (List.mem_cons_of_mem _ member))

structure Emitter.Beside (agree : Store → Store → Prop) (a b : Emitter) : Prop where
  line : a.line = b.line
  recordsLines : a.recordsLines = b.recordsLines
  lines : a.listing.lines = b.listing.lines
  code : ∃ left, Parallel agree [] a.listing.instructions b.listing.instructions
    (List.replicate left .value)

theorem respellingEmits :
    (respelling agree setup names).KeepsEmitters (Emitter.Beside agree) := by
  rintro a b code other s _ beside ⟨left,added⟩ rfl
  have paired : ∀ spots, Parallel agree spots code other (List.replicate left .value ++ spots) :=
    added
  obtain ⟨height,before⟩ := beside.code
  have more := before.append (paired (List.replicate height .value))
  rw [List.replicate_append_replicate] at more
  refine ⟨rfl,beside.recordsLines,?_,left + height,?_⟩
  · simp only [Emitter.linesEmitAll,Emitter.setLine,Emitter.recordedLine,beside.lines,
      beside.recordsLines,(paired []).sameLength]
  · simpa only [Emitter.instructionsEmitAll,Emitter.setLine] using more

structure CompiledMethod.Beside (agree : Store → Store → Prop) (c d : CompiledMethod) : Prop where
  name : c.name = d.name
  locals : c.locals = d.locals
  accessors : c.accessors = d.accessors
  lines : c.listing.lines = d.listing.lines
  code : ∃ left, Parallel agree [] c.listing.instructions d.listing.instructions
    (List.replicate left .value)

theorem BodyRespelled.compiles
    (found : setup.lookup.FindsAlike names)
    {method other : Method} (called : method.name = other.name)
    (respelled : BodyRespelled names method.body other.body)
    (permitted : ∀ stmt ∈ method.body, ∀ access, stmt.Makes setup.lookup access →
      access.Permitted agree) (queries : Nat) :
    (compileMethod setup method queries).2 = (compileMethod setup other queries).2 ∧
      ((∃ e, (compileMethod setup method queries).1 = .error e ∧
          (compileMethod setup other queries).1 = .error e) ∨
        ∃ c d, (compileMethod setup method queries).1 = .ok c ∧
          (compileMethod setup other queries).1 = .ok d ∧ c.Beside agree d) := by
  have begun : Emitter.Beside agree { recordsLines := setup.options.recordsLines }
      { recordsLines := setup.options.recordsLines } := ⟨rfl,rfl,rfl,0,.nil _⟩
  rcases methodTwins (respellingKeeps found) respellingEmits (respelled.twins permitted)
    queries queries rfl begun with
      ⟨e,f,d,_,told,rfl,one,two⟩ | ⟨a,b,d,_,beside,rfl,one,two⟩
  · have same : f = e := by cases told <;> simp_all [respelling]
    rw [show compileMethod setup method queries = _ from one,
      show compileMethod setup other queries = _ from two,same]
    exact ⟨rfl,.inl ⟨e,rfl,rfl⟩⟩
  · rw [show compileMethod setup method queries = _ from one,
      show compileMethod setup other queries = _ from two]
    exact ⟨rfl,.inr ⟨_,_,rfl,rfl,called,rfl,rfl,beside.lines,beside.code⟩⟩

theorem CompiledMethod.Beside.execute {c d : CompiledMethod} (beside : c.Beside agree d)
    (host : Host) (limit : Nat) (arguments : List Value) {before other : Context}
    (contexts : before.Beside agree other) :
    Alike Eq (Context.Beside agree) (Context.Beside agree)
      ((execute host limit c arguments).run before) ((execute host limit d arguments).run other) := by
  obtain ⟨left,parallel⟩ := beside.code
  refine executeTogether beside.locals beside.accessors parallel ?_ host limit arguments contexts
  intro spot member
  exact List.eq_of_mem_replicate member

end Bodies
end ScriptMachine
