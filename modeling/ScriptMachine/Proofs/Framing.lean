import ScriptMachine.Proofs.Renumbering
import ScriptMachine.Proofs.StackNeed
/-! Methods behind other methods. A body that can be compiled on its own can be
compiled where more names are bound already, as long as it mentions none of them,
and where other questions went to the lookup before. It binds the same names with
the same types there, and needs the same stack. -/
namespace ScriptMachine

def Lookup.Steady (lookup : Lookup) : Prop :=
  ∀ name query later, (lookup.resolveSetter query name).isSome =
    (lookup.resolveSetter later name).isSome

theorem Lookup.Steady.none {lookup : Lookup} (steady : lookup.Steady) (name : String)
    (query later : Nat) :
    lookup.resolveSetter query name = none ↔ lookup.resolveSetter later name = none := by
  rw [← Option.not_isSome_iff_eq_none,steady name query later,Option.not_isSome_iff_eq_none]

def Known.Behind (front : List Local) (k later : Known) : Prop :=
  later.names = front ++ k.names

namespace Known.Behind
variable {front : List Local} {k later : Known} {name : String}

theorem find (behind : k.Behind front later) (apart : name ∉ front.map (·.name)) :
    later.find? name = k.find? name := by
  have absent : front.find? (fun entry => entry.name = name) = none := by
    simpa [List.find?_eq_none] using apart
  rw [Known.find?,behind,List.find?_append,absent,Option.none_or,Known.find?]

theorem bind (behind : k.Behind front later) (name : String) (type : StaticType) (span : Span) :
    (k.bind name type span).Behind front (later.bind name type span) := by
  unfold Behind at behind ⊢
  simp only [Known.bind,behind,List.append_assoc]

theorem bindFree (behind : k.Behind front later) (apart : name ∉ front.map (·.name))
    (type : StaticType) (span : Span) :
    (k.bindFree name type span).Behind front (later.bindFree name type span) := by
  unfold Known.bindFree
  rw [behind.find apart]
  split
  · exact behind
  · exact behind.bind name type span

end Known.Behind

/-- A check that binds only names it mentions, and that passes behind other names
as it passes without them. -/
structure Framed (mentioned : List String) (passes : Known → Known → Prop) : Prop where
  binds : ∀ {k after}, passes k after →
    ∀ entry ∈ after.names, entry ∈ k.names ∨ entry.name ∈ mentioned
  behind : ∀ {front k later after}, passes k after → k.Behind front later →
    (∀ name ∈ mentioned, name ∉ front.map (·.name)) →
    ∃ last, after.Behind front last ∧ passes later last

namespace Framed
variable {mentioned others : List String} {first second passes : Known → Known → Prop}

theorem sequence (left : Framed mentioned first) (right : Framed others second)
    (both : ∀ {k after}, passes k after ↔ ∃ middle, first k middle ∧ second middle after) :
    Framed (mentioned ++ others) passes := by
  constructor
  · intro k after passed entry member
    obtain ⟨middle,one,two⟩ := both.mp passed
    rcases right.binds two entry member with known | new
    · exact (left.binds one entry known).imp_right (List.mem_append_left others)
    · exact .inr (List.mem_append_right mentioned new)
  · intro front k later after passed behind apart
    obtain ⟨middle,one,two⟩ := both.mp passed
    obtain ⟨between,reached,again⟩ := left.behind one behind
      fun name member => apart name (List.mem_append_left others member)
    obtain ⟨last,ended,also⟩ := right.behind two reached
      fun name member => apart name (List.mem_append_right mentioned member)
    exact ⟨last,ended,both.mpr ⟨between,again,also⟩⟩

end Framed

section Rules
variable (setup : CompileSetup)

def Expr.Framed (e : Expr) : Prop :=
  ∀ type, ScriptMachine.Framed e.names fun k after => Passes setup k e type after

def Expr.FramedAs (e : Expr) (wanted : StaticType) : Prop :=
  ScriptMachine.Framed e.names fun k after => PassesAs setup k e wanted after

def ItemsFramed (element : StaticType) (items : List Expr) : Prop :=
  Framed (Expr.namesAll items) fun k after => PassesAll setup k items element after

variable {setup} {key value item : Expr} {items : List Expr}

theorem Expr.Framed.converted {e : Expr} (framed : e.Framed setup) (wanted : StaticType) :
    e.FramedAs setup wanted := by
  constructor
  · rintro k after ⟨passes,_⟩
    exact (framed _).binds passes
  · rintro front k later after ⟨passes,converts⟩ behind apart
    obtain ⟨last,ended,again⟩ := (framed _).behind passes behind apart
    exact ⟨last,ended,.converted again converts⟩

theorem Expr.Framed.ofType {e : Expr} {type : StaticType}
    (typed : ∀ {k source after}, Passes setup k e source after → source = type)
    (framed : ScriptMachine.Framed e.names fun k after => Passes setup k e type after) :
    e.Framed setup := by
  intro source
  constructor
  · intro k after passes
    obtain rfl := typed passes
    exact framed.binds passes
  · intro front k later after passes
    obtain rfl := typed passes
    exact framed.behind passes

theorem bindFreeNames {k : Known} {name : String} {type : StaticType} {span : Span} {entry : Local}
    (member : entry ∈ (k.bindFree name type span).names) : entry ∈ k.names ∨ entry.name = name := by
  unfold Known.bindFree at member
  split at member
  · exact .inl member
  · simp only [Known.bind,List.mem_append,List.mem_singleton] at member
    exact member.imp_right (congrArg Local.name)

namespace Expr

theorem plainFramed {e : Expr} {type : StaticType} {next : Known → Known}
    (always : ∀ k, Passes setup k e type (next k)) (names : ∀ k, (next k).names = k.names)
    (only : ∀ {k source after}, Passes setup k e source after → source = type ∧ after = next k) :
    e.Framed setup := by
  intro source
  constructor
  · intro k after passes entry member
    obtain ⟨_,rfl⟩ := only passes
    rw [names] at member
    exact .inl member
  · intro front k later after passes behind apart
    obtain ⟨rfl,rfl⟩ := only passes
    refine ⟨next later,?_,always later⟩
    rw [Known.Behind,names,names]
    exact behind

theorem localFramed (name : String) (span : Span) : (localRef name span).Framed setup := by
  intro type
  constructor
  · intro k after passes entry member
    cases passes
    exact .inl member
  · intro front k later after passes behind apart
    cases passes with
    | localRef _ bound =>
      have found := (behind.find (apart name List.mem_cons_self)).trans bound
      exact ⟨later,behind,.localRef span found⟩

theorem indexedFramed (base : Expr) (span : Span) (keys : key.FramedAs setup .string) :
    (indexed base key span).Framed setup := by
  intro type
  constructor
  · intro k after passes
    cases passes with
    | indexed _ _ checked => exact keys.binds checked
  · intro front k later after passes behind apart
    cases passes with
    | indexed _ _ checked =>
      obtain ⟨last,ended,again⟩ := keys.behind checked behind apart
      exact ⟨last,ended,.indexed base span again⟩

theorem arrayOfFramed (name : String) (span : Span)
    (filled : ∀ element, ItemsFramed setup element items) :
    (arrayOf name items span).Framed setup := by
  intro type
  constructor
  · intro k after passes
    cases passes with
    | arrayOf _ named few checked => exact (filled _).binds checked
  · intro front k later after passes behind apart
    cases passes with
    | arrayOf _ named few checked =>
      obtain ⟨last,ended,again⟩ := (filled _).behind checked behind apart
      exact ⟨last,ended,.arrayOf span named few again⟩

theorem assignLocalFramed (name : String) (place span : Span)
    (values : ∀ wanted, value.FramedAs setup wanted) :
    (assign (localRef name place) value span).Framed setup := by
  intro type
  constructor
  · intro k after passes entry member
    cases passes with
    | assignLocal _ slot checked =>
      rcases (values _).binds checked entry member with known | new
      · refine (bindFreeNames known).imp_right fun same => ?_
        exact List.mem_append_left _ (List.mem_singleton.mpr same)
      · exact .inr (List.mem_append_right _ new)
  · intro front k later after passes behind apart
    have free := apart name (List.mem_append_left _ List.mem_cons_self)
    cases passes with
    | assignLocal _ slot checked =>
      have bound := behind.bindFree free setup.options.implicitType place
      obtain ⟨last,ended,again⟩ := (values _).behind checked bound
        fun name member => apart name (List.mem_append_right _ member)
      exact ⟨last,ended,.assignLocal span ((bound.find free).trans slot) again⟩

theorem assignStoredFramed (base : Expr) (place span : Span) (keys : key.FramedAs setup .string)
    (values : value.FramedAs setup .object) :
    (assign (indexed base key place) value span).Framed setup := by
  refine .ofType (fun passes => by cases passes; rfl) (keys.sequence values ⟨?_,?_⟩)
  · intro passes
    cases passes with
    | assignStored _ _ _ keyed checked => exact ⟨_,keyed,checked⟩
  · rintro ⟨middle,keyed,checked⟩
    exact .assignStored base place span keyed checked

theorem assignPropertyFramed (steady : setup.lookup.Steady) (name : String) (place span : Span)
    (values : value.FramedAs setup .object) :
    (assign (property name place) value span).Framed setup := by
  intro type
  constructor
  · intro k after passes entry member
    cases passes with
    | assignProperty _ _ written checked => exact values.binds checked entry member
    | skipProperty => exact .inl member
  · intro front k later after passes behind apart
    have asked : k.asking.Behind front later.asking := behind
    cases passes with
    | assignProperty _ _ written checked =>
      obtain ⟨last,ended,again⟩ := values.behind checked asked apart
      exact ⟨last,ended,.assignProperty place span (mt (steady.none _ _ _).mp written) again⟩
    | skipProperty _ _ _ unwritten =>
      exact ⟨later.asking,asked,.skipProperty place value span
        ((steady.none _ _ _).mp unwritten)⟩

theorem framed (steady : setup.lookup.Steady) (e : Expr) : e.Framed setup := by
  refine compile.induct (Framed setup) (fun element _ items => ItemsFramed setup element items)
    ?constant ?null ?localRef ?argument ?indexed ?property ?arrayOf ?assignLocal ?assignIndexed
    ?assignProperty ?unassignable ?noItems ?moreItems e
  case constant =>
    intro c span
    exact plainFramed (fun _ => .constant c span) (fun _ => rfl)
      fun passes => by cases passes; exact ⟨rfl,rfl⟩
  case null =>
    intro span
    exact plainFramed (fun _ => .null span) (fun _ => rfl)
      fun passes => by cases passes; exact ⟨rfl,rfl⟩
  case localRef => exact localFramed
  case argument =>
    intro index span
    exact plainFramed (fun _ => .argument index span) (fun _ => rfl)
      fun passes => by cases passes; exact ⟨rfl,rfl⟩
  case indexed =>
    intro base key span keys
    exact indexedFramed base span (keys.converted .string)
  case property =>
    intro name span
    exact plainFramed (fun _ => .property name span) (fun _ => rfl)
      fun passes => by cases passes; exact ⟨rfl,rfl⟩
  case arrayOf =>
    intro name items span filled
    exact arrayOfFramed name span filled
  case assignLocal =>
    intro name place value span values
    exact assignLocalFramed name place span values.converted
  case assignIndexed =>
    intro base key place value span keys values
    exact assignStoredFramed base place span (keys.converted .string) (values.converted .object)
  case assignProperty =>
    intro name place value span values
    exact assignPropertyFramed steady name place span (values.converted .object)
  case unassignable =>
    intro target value span notLocal notIndexed notProperty type
    constructor
    · intro k after passes
      cases passes with
      | assignLocal => exact (notLocal _ _ rfl).elim
      | assignStored => exact (notIndexed _ _ _ rfl).elim
      | assignProperty | skipProperty => exact (notProperty _ _ rfl).elim
    · intro front k later after passes
      cases passes with
      | assignLocal => exact (notLocal _ _ rfl).elim
      | assignStored => exact (notIndexed _ _ _ rfl).elim
      | assignProperty | skipProperty => exact (notProperty _ _ rfl).elim
  case noItems =>
    intro element index
    constructor
    · rintro k after ⟨⟩ entry member
      exact .inl member
    · rintro front k later after ⟨⟩ behind apart
      exact ⟨later,behind,.nil element⟩
  case moreItems =>
    intro element index item items itemFramed rest
    refine (itemFramed.converted element).sequence rest ⟨?_,?_⟩
    · rintro (_ | ⟨first,later⟩)
      exact ⟨_,first,later⟩
    · rintro ⟨middle,first,later⟩
      exact .cons first later

end Expr

theorem Stmt.framed (steady : setup.lookup.Steady) (stmt : Stmt) :
    Framed stmt.names fun k after => StmtPasses setup k stmt after := by
  constructor
  · intro k after passes entry member
    cases passes with
    | declare span initial free =>
      simp only [Known.bind,List.mem_append,List.mem_singleton] at member
      rcases member with known | rfl
      · exact ((Expr.framed steady _ _).binds initial entry known).imp_right
          (List.mem_cons_of_mem _)
      · exact .inr List.mem_cons_self
    | assign checked => exact (Expr.framed steady _ _).binds checked entry member
    | evaluate span checked => exact (Expr.framed steady _ _).binds checked entry member
  · intro front k later after passes behind apart
    cases passes with
    | declare span initial free =>
      obtain ⟨middle,between,again⟩ := (Expr.framed steady _ _).behind initial behind
        fun name member => apart name (List.mem_cons_of_mem _ member)
      have unbound := (between.find (apart _ List.mem_cons_self)).trans free
      exact ⟨_,between.bind _ _ span,.declare span again unbound⟩
    | assign checked =>
      obtain ⟨last,ended,again⟩ := (Expr.framed steady _ _).behind checked behind apart
      exact ⟨last,ended,.assign again⟩
    | evaluate span checked =>
      obtain ⟨last,ended,again⟩ := (Expr.framed steady _ _).behind checked behind apart
      exact ⟨last,ended,.evaluate span again⟩

theorem bodyFramed (steady : setup.lookup.Steady) (body : List Stmt) :
    Framed (bodyNames body) fun k after => BodyPasses setup k body after := by
  induction body with
  | nil =>
    constructor
    · rintro k after ⟨⟩ entry member
      exact .inl member
    · rintro front k later after ⟨⟩ behind apart
      exact ⟨later,behind,.nil later⟩
  | cons stmt rest ih =>
    refine (stmt.framed steady).sequence ih ⟨?_,?_⟩
    · rintro (_ | ⟨first,later⟩)
      exact ⟨_,first,later⟩
    · rintro ⟨middle,first,later⟩
      exact .cons first later

theorem BodyPasses.append {k middle after : Known} {first second : List Stmt}
    (before : BodyPasses setup k first middle) (later : BodyPasses setup middle second after) :
    BodyPasses setup k (first ++ second) after := by
  induction before with
  | nil => exact later
  | cons stmt _ ih => exact .cons stmt (ih later)

theorem BodyPasses.joined (steady : setup.lookup.Steady) {first second : List Stmt}
    {early late : Nat} {left right : Known}
    (before : BodyPasses setup { asked := early } first left)
    (later : BodyPasses setup { asked := late } second right)
    (apart : ∀ name ∈ bodyNames first, name ∉ bodyNames second) (queries : Nat) :
    ∃ asked, BodyPasses setup { asked := queries } (first ++ second)
      ⟨left.names ++ right.names,asked⟩ := by
  obtain ⟨middle,between,again⟩ := (bodyFramed steady first).behind before
    (show Known.Behind [] _ { asked := queries } from rfl) nofun
  have bound : middle.names = left.names := between
  have free : ∀ name ∈ bodyNames second, name ∉ middle.names.map (·.name) := by
    intro name mentioned member
    obtain ⟨entry,there,rfl⟩ := List.mem_map.mp member
    rcases (bodyFramed steady first).binds again entry there with known | binds
    · cases known
    · exact apart _ binds mentioned
  obtain ⟨⟨names,asked⟩,behind,also⟩ := (bodyFramed steady second).behind later
    (show Known.Behind middle.names _ middle from (List.append_nil _).symm) free
  have all : names = left.names ++ right.names := by
    rw [← bound]
    exact behind
  exact ⟨asked,all ▸ again.append also⟩

end Rules

section Needs
variable {lookup : Lookup}

theorem Expr.needSteady (steady : lookup.Steady) (e : Expr) :
    ∀ query later, e.need lookup query = e.need lookup later := by
  refine compile.induct (fun e => ∀ query later, e.need lookup query = e.need lookup later)
    (fun _ _ items => ∀ query later, needAll lookup items query = needAll lookup items later)
    ?constant ?null ?localRef ?argument ?indexed ?property ?arrayOf ?assignLocal ?assignIndexed
    ?assignProperty ?unassignable ?noItems ?moreItems e
  case constant | null | localRef | argument | property | noItems => intros; rfl
  case indexed =>
    intro base key span keys query later
    simp only [need,keys query later]
  case arrayOf =>
    intro name items span filled query later
    simp only [need,filled .void query later]
  case assignLocal =>
    intro name place value span values query later
    simp only [need,values query later]
  case assignIndexed =>
    intro base key place value span keys values query later
    simp only [need,keys query later,
      values (nextQuery lookup key query) (nextQuery lookup key later)]
  case assignProperty =>
    intro name place value span values query later
    simp only [need,steady name query later,values (query + 1) (later + 1)]
  case unassignable =>
    intro target value span notLocal notIndexed notProperty query later
    cases target with
    | localRef name place => exact (notLocal name place rfl).elim
    | indexed base key place => exact (notIndexed base key place rfl).elim
    | property name place => exact (notProperty name place rfl).elim
    | constant | null | argument | arrayOf | assign => rfl
  case moreItems =>
    intro element index item items first rest query later
    simp only [needAll,first query later,
      rest (nextQuery lookup item query) (nextQuery lookup item later)]

theorem Stmt.needSteady (steady : lookup.Steady) (stmt : Stmt) (query later : Nat) :
    stmt.need lookup query = stmt.need lookup later := by
  cases stmt with
  | declare name init span => exact init.needSteady steady query later
  | assign target value span =>
    have whole := (Expr.assign target value span).needSteady steady query later
    cases target with
    | localRef name place => exact value.needSteady steady query later
    | constant | null | argument | indexed | property | arrayOf | assign => exact whole
  | evaluate e span => exact e.needSteady steady query later

theorem bodyNeedSteady (steady : lookup.Steady) (body : List Stmt) (query later : Nat) :
    bodyNeed lookup body query = bodyNeed lookup body later := by
  induction body generalizing query later with
  | nil => rfl
  | cons stmt rest ih =>
    simp only [bodyNeed,stmt.needSteady steady query later,
      ih (stmt.nextQuery lookup query) (stmt.nextQuery lookup later)]

theorem bodyNeedAppend (steady : lookup.Steady) (first second : List Stmt) (query : Nat) :
    bodyNeed lookup (first ++ second) query =
      max (bodyNeed lookup first query) (bodyNeed lookup second query) := by
  induction first generalizing query with
  | nil => simp only [List.nil_append,bodyNeed,Nat.zero_max]
  | cons stmt rest ih =>
    simp only [List.cons_append,bodyNeed,ih,Nat.max_assoc,
      bodyNeedSteady steady second (stmt.nextQuery lookup query) query]

end Needs

section Compiling
variable {setup : CompileSetup} {method : Method} {queries : Nat}

theorem compiledPasses (typed : setup.options.implicitType ≠ .void) {compiled : CompiledMethod}
    (ok : (compileMethod setup method queries).1 = .ok compiled) :
    ∃ asked, BodyPasses setup { asked := queries } method.body ⟨compiled.locals,asked⟩ := by
  have decides := bodyDecided typed method.body { recordsLines := setup.options.recordsLines }
    { queries := queries } nofun
  rw [compileMethodPieces] at ok
  generalize (compileBody setup method.body { recordsLines := setup.options.recordsLines }).run
    { queries := queries } = outcome at decides ok
  cases decides with
  | accepted passed =>
    cases ok
    exact ⟨_,passed⟩
  | refused fault => cases ok
  | crowded many => cases ok

theorem passedCompiles (typed : setup.options.implicitType ≠ .void)
    (few : accessorsUsed setup method queries < 0x100000000) {after : Known}
    (passes : BodyPasses setup { asked := queries } method.body after) :
    ∃ compiled, (compileMethod setup method queries).1 = .ok compiled ∧
      compiled.locals = after.names := by
  have exclusive := bodyExclusive setup method.body
  have decides := bodyDecided typed method.body { recordsLines := setup.options.recordsLines }
    { queries := queries } nofun
  rw [compileMethodPieces]
  unfold accessorsUsed at few
  generalize (compileBody setup method.body { recordsLines := setup.options.recordsLines }).run
    { queries := queries } = outcome at decides few
  cases decides with
  | accepted passed => exact ⟨_,rfl,congrArg Known.names (exclusive.unique passed passes)⟩
  | refused fault => exact (exclusive.apart passes fault).elim
  | crowded many =>
    simp only [Draft.Crowded,CompileM.accessorLimit] at many
    simp only [lastState] at few
    omega

theorem joinedCompiles (typed : setup.options.implicitType ≠ .void)
    (steady : setup.lookup.Steady) {first second : Method} {early late : Nat}
    {one two : CompiledMethod} (left : (compileMethod setup first early).1 = .ok one)
    (right : (compileMethod setup second late).1 = .ok two)
    (joined : method.body = first.body ++ second.body)
    (apart : ∀ name ∈ bodyNames first.body, name ∉ bodyNames second.body)
    (few : accessorsUsed setup method queries < 0x100000000) :
    ∃ compiled, (compileMethod setup method queries).1 = .ok compiled ∧
      compiled.locals = one.locals ++ two.locals := by
  obtain ⟨_,before⟩ := compiledPasses typed left
  obtain ⟨_,later⟩ := compiledPasses typed right
  obtain ⟨asked,passes⟩ := before.joined steady later apart queries
  rw [← joined] at passes
  exact passedCompiles typed few passes

theorem localsMentioned (typed : setup.options.implicitType ≠ .void)
    (steady : setup.lookup.Steady) {compiled : CompiledMethod}
    (ok : (compileMethod setup method queries).1 = .ok compiled) :
    ∀ name ∈ compiled.locals.map (·.name), name ∈ bodyNames method.body := by
  intro name member
  obtain ⟨entry,there,rfl⟩ := List.mem_map.mp member
  obtain ⟨asked,passes⟩ := compiledPasses typed ok
  rcases (bodyFramed steady method.body).binds passes entry there with known | mentioned
  · cases known
  · exact mentioned

end Compiling
end ScriptMachine
