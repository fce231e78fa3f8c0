import ScriptMachine.Proofs.Acceptance
import ScriptMachine.Proofs.StackHeight
import ScriptMachine.Proofs.TypeSoundness
/-! How much stack a method needs. The need of a tree is said without code, and
is the greatest height that its code reaches. So a limit is either enough for
every run of the method, or for none that gets to the place where it is passed. -/
namespace ScriptMachine

namespace Expr

mutual
def nextQuery (lookup : Lookup) : Expr → Nat → Nat
  | constant _ _, query => query
  | null _, query => query
  | localRef _ _, query => query
  | argument _ _, query => query
  | indexed _ key _, query => nextQuery lookup key query
  | property _ _, query => query + 1
  | arrayOf _ items _, query => nextQueryAll lookup items query
  | assign (localRef _ _) value _, query => nextQuery lookup value query
  | assign (indexed _ key _) value _, query =>
    nextQuery lookup value (nextQuery lookup key query)
  | assign (property name _) value _, query =>
    if (lookup.resolveSetter query name).isSome then nextQuery lookup value (query + 1)
    else query + 1
  | assign _ _ _, query => query

def nextQueryAll (lookup : Lookup) : List Expr → Nat → Nat
  | [], query => query
  | item :: items, query => nextQueryAll lookup items (nextQuery lookup item query)
end

mutual
def need (lookup : Lookup) : Expr → Nat → Nat
  | constant _ _, _ => 1
  | null _, _ => 1
  | localRef _ _, _ => 1
  | argument _ _, _ => 1
  | property _ _, _ => 1
  | indexed _ key _, query => 1 + need lookup key query
  | arrayOf _ items _, query => max 1 (needAll lookup items query)
  | assign (localRef _ _) value _, query => max (need lookup value query) 2
  | assign (indexed _ key _) value _, query =>
    max (1 + need lookup key query) (2 + need lookup value (nextQuery lookup key query))
  | assign (property name _) value _, query =>
    if (lookup.resolveSetter query name).isSome then max (need lookup value (query + 1)) 2 else 1
  | assign _ _ _, _ => 0

/-- An initializer is evaluated above its array twice and its index. -/
def needAll (lookup : Lookup) : List Expr → Nat → Nat
  | [], _ => 0
  | item :: items, query =>
    max (3 + need lookup item query) (needAll lookup items (nextQuery lookup item query))
end

attribute [simp] nextQuery nextQueryAll need needAll

end Expr

namespace Stmt

def nextQuery (lookup : Lookup) : Stmt → Nat → Nat
  | declare _ init _, query => init.nextQuery lookup query
  | assign target value span, query => (Expr.assign target value span).nextQuery lookup query
  | evaluate e _, query => e.nextQuery lookup query

def need (lookup : Lookup) : Stmt → Nat → Nat
  | declare _ init _, query => init.need lookup query
  | assign (.localRef _ _) value _, query => value.need lookup query
  | assign target value span, query => (Expr.assign target value span).need lookup query
  | evaluate e _, query => e.need lookup query

end Stmt

def bodyNeed (lookup : Lookup) : List Stmt → Nat → Nat
  | [], _ => 0
  | stmt :: rest, query =>
    max (stmt.need lookup query) (bodyNeed lookup rest (stmt.nextQuery lookup query))

structure Climbs (h : Nat) (code : List Instruction) (after top : Nat) : Prop where
  height : heightAfter h code = after
  peak : peak h code = top

namespace Climbs
variable {h middle after top low high : Nat} {code first second : List Instruction}

theorem nil (h : Nat) : Climbs h [] h h :=
  ⟨rfl,rfl⟩

theorem cons {i : Instruction} (rest : Climbs (i.height h) code after top) :
    Climbs h (i :: code) after (max h top) :=
  ⟨rest.height,by rw [ScriptMachine.peak,rest.peak]⟩

theorem one {i : Instruction} (moved : i.height h = after) : Climbs h [i] after (max h after) :=
  ⟨moved,by simp only [ScriptMachine.peak,moved]⟩

theorem append (left : Climbs h first middle low) (right : Climbs middle second after high) :
    Climbs h (first ++ second) after (max low high) := by
  constructor
  · rw [heightAppend,left.height,right.height]
  · rw [peakAppend,left.height,left.peak,right.peak]

theorem bounds (climbs : Climbs h code after top) : h ≤ top ∧ after ≤ top := by
  rw [← climbs.height,← climbs.peak]
  exact ⟨startBelowPeak h code,endBelowPeak h code⟩

theorem reaching {other : Nat} (climbs : Climbs h code after top) (same : top = other) :
    Climbs h code after other :=
  same ▸ climbs

end Climbs

theorem Coerces.climbs {source wanted : StaticType} {code : List Instruction}
    (coerces : Coerces source wanted code) (h : Nat) : Climbs h code h h := by
  cases coerces with
  | same | object | array => exact .nil h
  | boxed | forced => exact (Climbs.one rfl).reaching (Nat.max_self h)
  | boxedForced source target =>
    have forced : Climbs h [.call (.force target)] h (max h h) := .one rfl
    exact (Climbs.cons (i := .box source) forced).reaching (by omega)

namespace Part

def nextQuery (lookup : Lookup) : Part → Nat → Nat
  | value e, query => e.nextQuery lookup query
  | converted _ e, query => e.nextQuery lookup query
  | items _ _ exprs, query => Expr.nextQueryAll lookup exprs query
  | assignment _ target e span, query => (Expr.assign target e span).nextQuery lookup query

def need (lookup : Lookup) : Part → Nat → Nat
  | value e, query => e.need lookup query
  | converted _ e, query => e.need lookup query
  | items _ _ exprs, query => max 1 (Expr.needAll lookup exprs query)
  | assignment .statement (.localRef _ _) e _, query => e.need lookup query
  | assignment _ target e span, query => (Expr.assign target e span).need lookup query

def taken : Part → Nat
  | items _ _ _ => 1
  | _ => 0

def given : Part → Nat
  | assignment .statement (.localRef _ _) _ _ => 0
  | _ => 1

attribute [simp] nextQuery need taken given

end Part

section Shapes
variable {h need first second : Nat} {i : Instruction} {code keyCode more : List Instruction}

theorem pushClimbs (push : i.height h = h + 1) : Climbs h [i] (h + 1) (h + 1) :=
  (Climbs.one push).reaching (by omega)

theorem takenClimbs (climbs : Climbs h code (h + 1) (h + need)) (taken : i.height (h + 1) = h) :
    Climbs h (code ++ [i]) h (h + need) := by
  refine (climbs.append (.one taken)).reaching ?_
  have bounds := climbs.bounds
  omega

theorem copiedClimbs (climbs : Climbs h code (h + 1) (h + need))
    (store : i.height (h + 2) = h + 1) :
    Climbs h (code ++ [.dup,i]) (h + 1) (h + max need 2) := by
  have stored : Climbs (h + 2) [i] (h + 1) (max (h + 2) (h + 1)) := .one store
  refine (climbs.append (.cons (i := .dup) stored)).reaching ?_
  omega

theorem storeGetClimbs (keys : Climbs (h + 1) code (h + 2) (h + 1 + need)) :
    Climbs h (.loadStore :: code ++ [.call .storeGet]) (h + 1) (h + (1 + need)) := by
  have read : Climbs (h + 2) [.call .storeGet] (h + 1) (max (h + 2) (h + 1)) := .one rfl
  refine (Climbs.cons (i := .loadStore) (keys.append read)).reaching ?_
  have bounds := keys.bounds
  omega

theorem storeSetClimbs (keys : Climbs (h + 1) keyCode (h + 2) (h + 1 + first))
    (values : Climbs (h + 2) code (h + 3) (h + 2 + second)) :
    Climbs h (.loadStore :: keyCode ++ code ++ [.call .storeSet]) (h + 1)
      (h + max (1 + first) (2 + second)) := by
  have write : Climbs (h + 3) [.call .storeSet] (h + 1) (max (h + 3) (h + 1)) := .one rfl
  refine (Climbs.cons (i := .loadStore) ((keys.append values).append write)).reaching ?_
  have keyBounds := keys.bounds
  have bounds := values.bounds
  omega

theorem newArrayClimbs (count : Int32) (element : StaticType)
    (filled : Climbs (h + 1) code (h + 1) (h + max 1 need)) :
    Climbs h (.pushInt count :: .newArray element :: code) (h + 1) (h + max 1 need) := by
  have made := Climbs.cons (i := .newArray element) filled
  refine (Climbs.cons (i := .pushInt count) made).reaching ?_
  omega

theorem storeElementClimbs (index : Int32) (item : Climbs (h + 3) code (h + 4) (h + 3 + first))
    (others : Climbs (h + 1) more (h + 1) (h + max 1 second)) :
    Climbs (h + 1) (.dup :: .pushInt index :: code ++ .storeElement :: more) (h + 1)
      (h + max 1 (max (3 + first) second)) := by
  have stored : Climbs (h + 4) (.storeElement :: more) (h + 1) _ := .cons others
  have indexed := Climbs.cons (i := .pushInt index) (item.append stored)
  refine (Climbs.cons (i := .dup) indexed).reaching ?_
  have bounds := item.bounds
  omega

end Shapes

section Compiling
open CompileM
variable {setup : CompileSetup} {d after : Draft}

theorem Coded.asks {part : Part} {piece : Piece} (coded : Coded setup part d piece after) :
    after.queries = part.nextQuery setup.lookup d.queries := by
  induction coded with
  | constant | null | localRef | argument | unread | noItems => rfl
  | indexed _ _ _ ih | arrayOf _ _ _ _ ih | assign _ _ ih | converted _ _ ih => exact ih
  | read _ _ recorded => exact (recordGrows recorded).2.2
  | moreItems _ _ ih others => rw [others,ih]; rfl
  | assignLocal _ _ _ _ ih => exact ih
  | assignStored _ _ _ _ _ _ keyIh ih => rw [ih,keyIh]; rfl
  | unwritten _ _ _ _ unknown => simp [unknown,asked]
  | write _ _ _ known _ recorded ih => simp [(recordGrows recorded).2.2,ih,known,asked]

theorem Coded.climbs {part : Part} {piece : Piece} (coded : Coded setup part d piece after)
    (h : Nat) :
    Climbs (h + part.taken) piece.code (h + part.given)
      (h + part.need setup.lookup d.queries) := by
  induction coded generalizing h with
  | constant | null | localRef | argument | unread | read => exact pushClimbs rfl
  | indexed base span keys ih => exact storeGetClimbs (ih (h + 1))
  | arrayOf span known few filled ih => exact newArrayClimbs _ _ (ih h)
  | assign span assigned ih => cases assigned <;> exact ih h
  | converted made coerces ih =>
    refine ((ih h).append (coerces.climbs (h + 1))).reaching ?_
    exact Nat.max_eq_left (ih h).bounds.2
  | noItems element index => exact .nil (h + 1)
  | moreItems first rest ih others =>
    rw [first.asks] at others
    exact storeElementClimbs _ (ih (h + 3)) (others h)
  | assignLocal form place span made ih =>
    cases form with
    | statement => exact takenClimbs (ih h) rfl
    | expression => exact copiedClimbs (ih h) rfl
  | assignStored form base place span keys made keyIh ih =>
    rw [keys.asks] at ih
    cases form <;> exact storeSetClimbs (keyIh (h + 1)) (ih (h + 2))
  | unwritten form place value span unknown =>
    cases form <;>
      · simp only [Part.need,Part.taken,Part.given,Expr.need,unknown,Option.isSome_none,
          Bool.false_eq_true,if_false]
        exact pushClimbs rfl
  | @write d code middle after name p index value form place span known made recorded ih =>
    cases form <;>
      · simp only [Part.need,Expr.need,known,Option.isSome_some,if_true]
        exact copiedClimbs (i := .callSetter index) (ih h) rfl

namespace Expr

theorem compiledSolid (typed : setup.options.implicitType ≠ .void) (solid : d.Solid) {e : Expr}
    {piece : Piece} (made : (e.compile setup).run d = .ok piece after) : piece.type ≠ .void := by
  have decided := e.decided typed d solid
  rw [made] at decided
  cases decided with
  | accepted passed => exact passed.2.2

end Expr

namespace Stmt

theorem compiledSolid (typed : setup.options.implicitType ≠ .void) (solid : d.Solid) {stmt : Stmt}
    {code : List Instruction} (made : (stmt.compile setup).run d = .ok code after) :
    after.Solid := by
  have decided := stmt.decided typed d solid
  rw [made] at decided
  cases decided with
  | accepted passed => exact passed.2

theorem discardedPop {piece : Piece} (firm : piece.type ≠ .void) :
    piece.discarded = piece.code ++ [.pop] := by
  have unpopped : piece.type.isVoid = false := by
    cases type : piece.type <;> first | rfl | exact absurd type firm
  rw [Piece.discarded,unpopped]
  rfl

theorem discardedClimbs {h need : Nat} {piece : Piece} (firm : piece.type ≠ .void)
    (climbs : Climbs h piece.code (h + 1) (h + need)) : Climbs h piece.discarded h (h + need) := by
  rw [discardedPop firm]
  exact takenClimbs climbs rfl

end Stmt

theorem StmtCoded.asks {stmt : Stmt} {code : List Instruction}
    (coded : StmtCoded setup stmt d code after) :
    after.queries = stmt.nextQuery setup.lookup d.queries := by
  cases coded with
  | declare span made free => exact made.asks
  | assign span made => exact made.asks
  | evaluate span made => exact made.asks

theorem Stmt.measured (typed : setup.options.implicitType ≠ .void) (solid : d.Solid) {stmt : Stmt}
    {code : List Instruction} (h : Nat) (ok : (stmt.compile setup).run d = .ok code after) :
    Climbs h code h (h + stmt.need setup.lookup d.queries) := by
  cases stmt with
  | declare name init span =>
    cases Stmt.codes ok with
    | declare _ made free => exact takenClimbs (made.climbs h) rfl
  | assign target value span =>
    cases Stmt.codes ok with
    | assign _ made =>
      have climbs := made.climbs h
      cases made with
      | assignLocal => exact climbs
      | assignStored | unwritten | write => exact discardedClimbs StaticType.noConfusion climbs
  | evaluate e span =>
    obtain ⟨piece,middle,compiled,last⟩ := bindOk ok
    cases last
    exact discardedClimbs (Expr.compiledSolid typed solid compiled) ((e.codes compiled).climbs h)

theorem Lowers.measured (typed : setup.options.implicitType ≠ .void) {body : List Stmt}
    {code : List Instruction} (lowers : Lowers setup body d code after) (solid : d.Solid) (h : Nat) :
    Climbs h code h (h + bodyNeed setup.lookup body d.queries) := by
  induction lowers with
  | nil d => exact .nil h
  | @cons stmt rest d code middle more after first others ih =>
    have later := ih (Stmt.compiledSolid typed solid first)
    rw [(Stmt.codes first).asks] at later
    refine ((Stmt.measured typed solid h first).append later).reaching ?_
    rw [bodyNeed]
    omega

theorem Lowers.solid (typed : setup.options.implicitType ≠ .void) {body : List Stmt}
    {code : List Instruction} (lowers : Lowers setup body d code after) (solid : d.Solid) :
    after.Solid := by
  induction lowers with
  | nil d => exact solid
  | cons first others ih => exact ih (Stmt.compiledSolid typed solid first)

end Compiling

theorem overflowsBelowNeedOnly {host : Host} {options : CompileOptions} {lookup : Lookup}
    {method : Method} {queries : Nat} {compiled : CompiledMethod} {context : Context}
    (contract : host.Keeps Heap.SameShapes) (typed : options.implicitType ≠ .void)
    (other : options.implicitType ≠ .string)
    (ok : (compileMethod ⟨lookup,options⟩ method queries).1 = .ok compiled)
    (objects : context.store.HoldsObjects) (limit : Nat) (arguments : List Value) :
    (bodyNeed lookup method.body queries ≤ limit → ∀ offset bound after,
      (execute host limit compiled arguments).run context ≠
        .error (.stackOverflow offset bound) after) ∧
    (limit < bodyNeed lookup method.body queries →
      (∃ offset after, (execute host limit compiled arguments).run context =
        .error (.stackOverflow offset limit) after) ∨
      ∃ e after, (execute host limit compiled arguments).run context = .error (.native e) after) := by
  obtain ⟨draft,lowers,locals,accessors⟩ := methodLowers ok
  have climbs := lowers.measured typed nofun 0
  have ends := acceptedEndsSoundly ⟨contract,fun _ => ⟨typed,other⟩⟩ ⟨lookup,method,queries,ok⟩
    limit arguments objects
  have room : (compiled.start arguments context).stack.length ≤
      (compiled.setting host limit context).limit := Nat.zero_le limit
  have top : peak (compiled.start arguments context).stack.length
      compiled.listing.instructions = bodyNeed lookup method.body queries :=
    climbs.peak.trans (Nat.zero_add _)
  rw [compiled.executeRun] at ends ⊢
  cases ran : (runFrom (compiled.setting host limit context) 0 compiled.listing.instructions).run
      (compiled.start arguments context) with
  | ok u m =>
    have fits := finishedFits room ran
    rw [top] at fits
    exact ⟨nofun,fun low => absurd fits (Nat.not_le.mpr low)⟩
  | error e m =>
    rw [ran] at ends
    cases ends with
    | overflow offset after objects =>
      have above := overflowOutgrows room ran
      rw [top] at above
      exact ⟨fun enough => absurd enough (Nat.not_le.mpr above),fun _ => .inl ⟨offset,_,rfl⟩⟩
    | refused e after objects => exact ⟨nofun,fun _ => .inr ⟨e,_,rfl⟩⟩

def fillsFromStore : Method :=
  ⟨"main",[.evaluate (.arrayOf "object" [.indexed (.null .start) (.constant (.string "k") .start)
    .start] .start) .start],.start⟩

theorem fillingNeedsFive :
    (CompiledMethod.quietHost.Keeps Heap.SameShapes ∧
      ({} : CompileOptions).implicitType ≠ .void ∧ ({} : CompileOptions).implicitType ≠ .string ∧
      ({} : Context).store.HoldsObjects) ∧
    bodyNeed ⟨{},none⟩ fillsFromStore.body 0 = 5 ∧ ∃ compiled,
      (compileMethod ⟨⟨{},none⟩,{}⟩ fillsFromStore 0).1 = .ok compiled ∧
      (∀ offset bound after, (execute CompiledMethod.quietHost 5 compiled []).run {} ≠
        .error (.stackOverflow offset bound) after) ∧
      ((∃ offset after, (execute CompiledMethod.quietHost 4 compiled []).run {} =
        .error (.stackOverflow offset 4) after) ∨
      ∃ e after, (execute CompiledMethod.quietHost 4 compiled []).run {} =
        .error (.native e) after) := by
  have contract : CompiledMethod.quietHost.Keeps Heap.SameShapes :=
    CompiledMethod.quietHostKeeps Heap.sameShapesRefl
  have five : bodyNeed ⟨{},none⟩ fillsFromStore.body 0 = 5 := rfl
  obtain ⟨compiled,ok⟩ : ∃ compiled,
      (compileMethod ⟨⟨{},none⟩,{}⟩ fillsFromStore 0).1 = .ok compiled := ⟨_,rfl⟩
  have typed : ({} : CompileOptions).implicitType ≠ .void := StaticType.noConfusion
  have other : ({} : CompileOptions).implicitType ≠ .string := StaticType.noConfusion
  have objects : ({} : Context).store.HoldsObjects := Store.emptyObjects
  obtain ⟨enough,_⟩ := overflowsBelowNeedOnly contract typed other ok objects 5 []
  obtain ⟨_,short⟩ := overflowsBelowNeedOnly contract typed other ok objects 4 []
  rw [five] at enough short
  exact ⟨⟨contract,typed,other,objects⟩,five,compiled,ok,enough (Nat.le_refl 5),
    short (Nat.lt_succ_self 4)⟩

end ScriptMachine
