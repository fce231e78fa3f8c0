import ScriptMachine.Proofs.StackNeed
/-! The table of accessors of a method. Every place of the script where a property is
read or written, and the lookup answers, becomes one instruction that refers to an
entry of the table. The entry has the accessors of the answer given at that place;
the table has them once, in the order in which the code first uses them. -/
namespace ScriptMachine

def Instruction.accessor? (i : Instruction) : Option Nat :=
  match i.operand with
  | some (.accessor n) => some n
  | _ => none

theorem Instruction.accessorOperand {i : Instruction} {n : Nat} :
    i.accessor? = some n ↔ i.operand = some (.accessor n) := by
  unfold accessor?
  split
  · rename_i m same
    simp [same]
  · rename_i other
    simp only [reduceCtorEq,false_iff]
    exact other n

theorem Property.sharesSymm {p q : Property} (shared : p.sharesAccessors q = true) :
    q.sharesAccessors p = true := by
  simp only [sharesAccessors,hasAccessor,Bool.and_eq_true,beq_iff_eq] at shared ⊢
  obtain ⟨⟨served,getters⟩,setters⟩ := shared
  rw [getters,setters] at served
  exact ⟨⟨served,getters.symm⟩,setters.symm⟩

inductive PropertyRole where
  | read
  | write
  deriving DecidableEq, Repr

structure PropertySite where
  role : PropertyRole
  name : String
  query : Nat
  deriving DecidableEq, Repr

namespace PropertySite

def answer? (lookup : Lookup) (site : PropertySite) : Option Property :=
  match site.role with
  | .read => lookup.resolveGetter site.query site.name
  | .write => lookup.resolveSetter site.query site.name

def instruction (site : PropertySite) (index : Nat) : Instruction :=
  match site.role with
  | .read => .callGetter index
  | .write => .callSetter index

def servedBy (site : PropertySite) (p : Property) : Bool :=
  match site.role with
  | .read => p.getter.isSome
  | .write => p.setter.isSome

def Calls (lookup : Lookup) (accessors : List Property) (site : PropertySite) (i : Instruction) :
    Prop :=
  ∃ index p entry, i = site.instruction index ∧ site.answer? lookup = some p ∧
    accessors[index]? = some entry ∧ entry.sharesAccessors p = true ∧ site.servedBy entry = true

theorem instructionAccessor (site : PropertySite) (index : Nat) :
    (site.instruction index).accessor? = some index := by
  unfold instruction
  split <;> rfl

theorem answerServes {lookup : Lookup} {site : PropertySite} {p entry : Property}
    (answer : site.answer? lookup = some p) (shared : entry.sharesAccessors p = true) :
    site.servedBy entry = true := by
  simp only [Property.sharesAccessors,Bool.and_eq_true,beq_iff_eq] at shared
  unfold answer? at answer
  unfold servedBy
  split at answer
  · rw [shared.1.2]
    exact (Option.filter_eq_some_iff.mp answer).2
  · rw [shared.2]
    exact (Option.filter_eq_some_iff.mp answer).2

theorem answerShares {lookup : Lookup} {site : PropertySite} {p : Property}
    (answer : site.answer? lookup = some p) : p.sharesAccessors p = true := by
  have served : p.hasAccessor = true := by
    unfold answer? at answer
    split at answer
    · exact lookup.getterFound answer
    · exact lookup.setterFound answer
  simp [Property.sharesAccessors,served]

end PropertySite

namespace Expr

mutual
/-- The places of an expression where a property is used and the lookup answers, in the
order of their instructions. A property that is assigned is asked for before its value
is looked at, but written last. -/
def sites (lookup : Lookup) : Expr → Nat → List PropertySite
  | constant _ _, _ => []
  | null _, _ => []
  | localRef _ _, _ => []
  | argument _ _, _ => []
  | indexed _ key _, query => sites lookup key query
  | property name _, query =>
    if (lookup.resolveGetter query name).isSome then [⟨.read,name,query⟩] else []
  | arrayOf _ items _, query => sitesAll lookup items query
  | assign (localRef _ _) value _, query => sites lookup value query
  | assign (indexed _ key _) value _, query =>
    sites lookup key query ++ sites lookup value (nextQuery lookup key query)
  | assign (property name _) value _, query =>
    if (lookup.resolveSetter query name).isSome then
      sites lookup value (query + 1) ++ [⟨.write,name,query⟩]
    else []
  | assign _ _ _, _ => []

def sitesAll (lookup : Lookup) : List Expr → Nat → List PropertySite
  | [], _ => []
  | item :: items, query =>
    sites lookup item query ++ sitesAll lookup items (nextQuery lookup item query)
end

attribute [simp] sites sitesAll

end Expr

def Part.sites (lookup : Lookup) : Part → Nat → List PropertySite
  | value e, query => e.sites lookup query
  | converted _ e, query => e.sites lookup query
  | items _ _ exprs, query => Expr.sitesAll lookup exprs query
  | assignment _ target e span, query => (Expr.assign target e span).sites lookup query

def Stmt.sites (lookup : Lookup) : Stmt → Nat → List PropertySite
  | declare _ init _, query => init.sites lookup query
  | assign target value span, query => (Expr.assign target value span).sites lookup query
  | evaluate e _, query => e.sites lookup query

def bodySites (lookup : Lookup) : List Stmt → Nat → List PropertySite
  | [], _ => []
  | stmt :: rest, query =>
    stmt.sites lookup query ++ bodySites lookup rest (stmt.nextQuery lookup query)

/-- Code that uses properties as the sites do, and what it makes of the table: an entry
is used again, or is added by its first use. -/
inductive Records (lookup : Lookup) :
    List Property → List Instruction → List PropertySite → List Property → Prop where
  | nil (table) : Records lookup table [] [] table
  | plain {table i code sites after} (other : i.accessor? = none)
      (rest : Records lookup table code sites after) : Records lookup table (i :: code) sites after
  | known {table site p index entry code sites after} (answer : site.answer? lookup = some p)
      (found : table[index]? = some entry) (shared : entry.sharesAccessors p = true)
      (rest : Records lookup table code sites after) :
      Records lookup table (site.instruction index :: code) (site :: sites) after
  | added {table site p code sites after} (answer : site.answer? lookup = some p)
      (apart : ∀ entry ∈ table, entry.sharesAccessors p = false)
      (rest : Records lookup (table ++ [p]) code sites after) :
      Records lookup table (site.instruction table.length :: code) (site :: sites) after

namespace Records
variable {lookup : Lookup} {table middle after : List Property}
variable {code first second : List Instruction} {sites more : List PropertySite}

theorem append (left : Records lookup table first sites middle)
    (right : Records lookup middle second more after) :
    Records lookup table (first ++ second) (sites ++ more) after := by
  induction left with
  | nil table => exact right
  | plain other rest ih => exact .plain other (ih right)
  | known answer found shared rest ih => exact .known answer found shared (ih right)
  | added answer apart rest ih => exact .added answer apart (ih right)

theorem behind {i : Instruction} (other : i.accessor? = none)
    (left : Records lookup table code sites after) :
    Records lookup table (code ++ [i]) sites after := by
  have whole := left.append (.plain other (.nil after))
  rwa [List.append_nil] at whole

theorem ofCoerces {top wanted : StaticType} (coerces : Coerces top wanted code)
    (table : List Property) : Records lookup table code [] table := by
  cases coerces with
  | same | object | array => exact .nil table
  | boxed | forced => exact .plain rfl (.nil table)
  | boxedForced => exact .plain rfl (.plain rfl (.nil table))

theorem ofRecorded (site : PropertySite) {d later : Draft} {p : Property} {span : Span}
    {index : Nat} (answer : site.answer? lookup = some p)
    (recorded : (CompileM.recordAccessor p span).run d = .ok index later) :
    Records lookup d.accessors [site.instruction index] [site] later.accessors := by
  rcases CompileM.recordAccessorCases recorded with ⟨entry,found,shared,rfl⟩ | ⟨rfl,apart,rfl⟩
  · exact .known answer found shared (.nil _)
  · exact .added answer apart (.nil _)

theorem grown (records : Records lookup table code sites after) : table <+: after := by
  induction records with
  | nil table => exact List.prefix_refl table
  | plain other rest ih => exact ih
  | known answer found shared rest ih => exact ih
  | added answer apart rest ih => exact (List.prefix_append _ _).trans ih

theorem callsCons {site : PropertySite} {i : Instruction} (own : site.Calls lookup after i)
    (rest : (code.filter (·.accessor?.isSome)).length = sites.length ∧
      ∀ call ∈ (code.filter (·.accessor?.isSome)).zip sites, call.2.Calls lookup after call.1) :
    ((i :: code).filter (·.accessor?.isSome)).length = (site :: sites).length ∧
      ∀ call ∈ ((i :: code).filter (·.accessor?.isSome)).zip (site :: sites),
        call.2.Calls lookup after call.1 := by
  have refers : i.accessor?.isSome = true := by
    obtain ⟨index,p,entry,rfl,_⟩ := own
    rw [site.instructionAccessor]
    rfl
  simp only [List.filter_cons,refers,if_true,List.length_cons,List.zip_cons_cons,List.mem_cons,
    forall_eq_or_imp]
  exact ⟨congrArg (· + 1) rest.1,own,rest.2⟩

theorem calls (records : Records lookup table code sites after) :
    (code.filter (·.accessor?.isSome)).length = sites.length ∧
      ∀ call ∈ (code.filter (·.accessor?.isSome)).zip sites,
        call.2.Calls lookup after call.1 := by
  induction records with
  | nil table => exact ⟨rfl,by simp⟩
  | plain other rest ih => simpa [List.filter_cons,other] using ih
  | @known table site p index entry code sites after answer found shared rest ih =>
    exact callsCons ⟨index,p,entry,rfl,answer,prefixAt rest.grown found,shared,
      PropertySite.answerServes answer shared⟩ ih
  | @added table site p code sites after answer apart rest ih =>
    have shared := PropertySite.answerShares answer
    exact callsCons ⟨table.length,p,p,rfl,answer,prefixAt rest.grown (by simp),shared,
      PropertySite.answerServes answer shared⟩ ih

theorem apart (records : Records lookup table code sites after)
    (before : table.Pairwise fun p q => p.sharesAccessors q = false) :
    after.Pairwise fun p q => p.sharesAccessors q = false := by
  induction records with
  | nil table => exact before
  | plain other rest ih => exact ih before
  | known answer found shared rest ih => exact ih before
  | added answer apart rest ih =>
    refine ih (List.pairwise_append.mpr ⟨before,List.pairwise_singleton _ _,?_⟩)
    simpa using apart

theorem entriesApart (records : Records lookup [] code sites after) {n m : Nat} {p q : Property}
    (first : after[n]? = some p) (second : after[m]? = some q)
    (shared : p.sharesAccessors q = true) : n = m := by
  obtain ⟨below,rfl⟩ := List.getElem?_eq_some_iff.mp first
  obtain ⟨under,rfl⟩ := List.getElem?_eq_some_iff.mp second
  have pairs := List.pairwise_iff_getElem.mp (records.apart .nil)
  rcases Nat.lt_trichotomy n m with less | same | more
  · rw [pairs n m below under less] at shared
    cases shared
  · exact same
  · have back := Property.sharesSymm shared
    rw [pairs m n under below more] at back
    cases back

theorem eraseKnown {n : Nat} {old : List Nat} (seen : n ∈ old) (rest : List Nat) :
    (old ++ n :: rest).eraseDups = (old ++ rest).eraseDups := by
  rw [List.eraseDups_append,List.eraseDups_append]
  simp [List.removeAll,seen]

theorem eraseRange (n : Nat) : (List.range n).eraseDups = List.range n := by
  induction n with
  | zero => rfl
  | succ n ih =>
    rw [List.range_succ,List.eraseDups_append,ih]
    simp [List.removeAll,List.eraseDups_cons]

/-- The first uses come in the order of the table: with the entries that were there put
in front, the uses are the positions in order, once repetitions are left out. -/
theorem order (records : Records lookup table code sites after) :
    (List.range table.length ++ code.filterMap (·.accessor?)).eraseDups =
      List.range after.length := by
  induction records with
  | nil table => rw [List.filterMap_nil,List.append_nil,eraseRange]
  | plain other rest ih => simpa only [List.filterMap_cons,other] using ih
  | @known table site p index entry code sites after answer found shared rest ih =>
    have seen : index ∈ List.range table.length :=
      List.mem_range.mpr (List.getElem?_eq_some_iff.mp found).1
    simp only [List.filterMap_cons,site.instructionAccessor]
    rw [eraseKnown seen,ih]
  | @added table site p code sites after answer apart rest ih =>
    simp only [List.filterMap_cons,site.instructionAccessor]
    rw [← ih,List.length_append,List.length_singleton,List.range_succ,List.append_assoc]
    rfl

end Records

section Compiling
open CompileM
variable {setup : CompileSetup} {d after : Draft}

theorem Coded.records {part : Part} {piece : Piece} (coded : Coded setup part d piece after) :
    Records setup.lookup d.accessors piece.code (part.sites setup.lookup d.queries)
      after.accessors := by
  induction coded with
  | constant | null | localRef | argument => exact .plain rfl (.nil _)
  | indexed base span keys ih => exact .plain rfl (ih.behind rfl)
  | unread span unknown =>
    simp only [Part.sites,Expr.sites,unknown,Option.isSome_none,Bool.false_eq_true,if_false]
    exact .plain rfl (.nil _)
  | @read d after name p index span known recorded =>
    simp only [Part.sites,Expr.sites,known,Option.isSome_some,if_true]
    exact Records.ofRecorded ⟨.read,name,d.queries⟩ known recorded (d := asked d)
  | arrayOf span known few filled ih => exact .plain rfl (.plain rfl ih)
  | assign span assigned ih => exact ih
  | @converted d piece after e wanted conversion made coerces ih =>
    have whole := ih.append (.ofCoerces coerces after.accessors)
    rwa [List.append_nil] at whole
  | noItems => exact .nil _
  | moreItems first rest ih others =>
    rw [first.asks] at others
    exact .plain rfl (.plain rfl (ih.append (.plain rfl others)))
  | @assignLocal d code after name value form place span made ih =>
    cases form with
    | statement => exact ih.behind rfl
    | expression =>
      have stored := (ih.behind (i := .dup) rfl).behind
        (i := .storeLocal (d.scope.bindOrReuse name setup.options.implicitType place).1.slot) rfl
      rwa [List.append_assoc] at stored
  | assignStored form base place span keys made keyIh ih =>
    rw [keys.asks] at ih
    exact .plain rfl ((keyIh.append ih).behind rfl)
  | unwritten form place value span unknown =>
    simp only [Part.sites,Expr.sites,unknown,Option.isSome_none,Bool.false_eq_true,if_false]
    exact .plain rfl (.nil _)
  | @write d code middle after name p index value form place span known made recorded ih =>
    simp only [Part.sites,Expr.sites,known,Option.isSome_some,if_true]
    -- the setter is recorded behind all that its value records
    have called : Records setup.lookup middle.accessors [.dup,.callSetter index]
        [⟨.write,name,d.queries⟩] after.accessors :=
      .plain rfl (.ofRecorded ⟨.write,name,d.queries⟩ known recorded)
    exact ih.append called

theorem Records.discarded {table later : List Property} {piece : Piece}
    {sites : List PropertySite} (records : Records setup.lookup table piece.code sites later) :
    Records setup.lookup table piece.discarded sites later := by
  unfold Piece.discarded
  split
  · exact records
  · exact records.behind rfl

theorem StmtCoded.records {stmt : Stmt} {code : List Instruction}
    (coded : StmtCoded setup stmt d code after) :
    Records setup.lookup d.accessors code (stmt.sites setup.lookup d.queries)
      after.accessors := by
  cases coded with
  | declare span made free => exact made.records.behind rfl
  | assign span made => exact made.records.discarded
  | evaluate span made => exact made.records.discarded

theorem Lowers.recorded {body : List Stmt} {code : List Instruction}
    (lowers : Lowers setup body d code after) :
    Records setup.lookup d.accessors code (bodySites setup.lookup body d.queries)
      after.accessors := by
  induction lowers with
  | nil d => exact .nil _
  | cons first others ih =>
    rw [(Stmt.codes first).asks] at ih
    exact (Stmt.codes first).records.append ih

end Compiling

theorem methodRecorded {setup : CompileSetup} {method : Method} {queries : Nat}
    {compiled : CompiledMethod} (ok : (compileMethod setup method queries).1 = .ok compiled) :
    Records setup.lookup [] compiled.listing.instructions
      (bodySites setup.lookup method.body queries) compiled.accessors := by
  obtain ⟨draft,lowers,_,accessors⟩ := methodLowers ok
  rw [accessors]
  exact lowers.recorded

namespace CompiledMethod

def propertyCalls (method : CompiledMethod) : List Instruction :=
  method.listing.instructions.filter (·.accessor?.isSome)

def accessorUses (method : CompiledMethod) : List Nat :=
  method.listing.instructions.filterMap (·.accessor?)

end CompiledMethod

theorem accessorTableIsFaithful {setup : CompileSetup} {method : Method} {queries : Nat}
    {compiled : CompiledMethod} (ok : (compileMethod setup method queries).1 = .ok compiled) :
    (compiled.propertyCalls.length = (bodySites setup.lookup method.body queries).length ∧
      ∀ call ∈ compiled.propertyCalls.zip (bodySites setup.lookup method.body queries),
        call.2.Calls setup.lookup compiled.accessors call.1) ∧
    (∀ i ∈ compiled.listing.instructions, ∀ n, i.operand = some (.accessor n) →
      n < compiled.accessors.length) ∧
    (∀ (n m : Nat) p q, compiled.accessors[n]? = some p → compiled.accessors[m]? = some q →
      p.sharesAccessors q = true → n = m) ∧
    (∀ n < compiled.accessors.length, ∃ i ∈ compiled.listing.instructions,
      i.operand = some (.accessor n)) ∧
    compiled.accessorUses.eraseDups = List.range compiled.accessors.length := by
  have records := methodRecorded ok
  have order : compiled.accessorUses.eraseDups = List.range compiled.accessors.length :=
    records.order
  have used (n : Nat) : n ∈ compiled.accessorUses ↔ n < compiled.accessors.length := by
    rw [← List.mem_range,← order,List.mem_eraseDups]
  simp only [CompiledMethod.accessorUses,List.mem_filterMap,Instruction.accessorOperand] at used
  refine ⟨records.calls,?_,?_,?_,order⟩
  · intro i member n operand
    exact (used n).mp ⟨i,member,operand⟩
  · intro n m p q first second shared
    exact records.entriesApart first second shared
  · intro n below
    exact (used n).mpr below

def alternating : Lookup :=
  ⟨{},some fun query name _ =>
    some ⟨name,some (.host 0 (query % 2)),some (.host 0 (query % 2) "x")⟩⟩

def passesOn : Method :=
  ⟨"main",[.assign (.property "x" .start)
    (.assign (.property "x" .start) (.property "y" .start) .start) .start],.start⟩

theorem namesakesKeptApart : ∃ compiled,
    (compileMethod ⟨alternating,{}⟩ passesOn 0).1 = .ok compiled ∧
    compiled.accessorUses = [0,1,0] ∧
    bodySites alternating passesOn.body 0 =
      [⟨.read,"y",2⟩,⟨.write,"x",1⟩,⟨.write,"x",0⟩] ∧
    (∀ call ∈ compiled.propertyCalls.zip (bodySites alternating passesOn.body 0),
      call.2.Calls alternating compiled.accessors call.1) ∧
    compiled.accessorUses.eraseDups = List.range compiled.accessors.length := by
  obtain ⟨⟨_,calls⟩,_,_,_,order⟩ := @accessorTableIsFaithful ⟨alternating,{}⟩ passesOn 0 _ rfl
  exact ⟨_,rfl,rfl,rfl,calls,order⟩

end ScriptMachine
