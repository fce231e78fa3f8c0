import ScriptMachine.Proofs.AccessorTable
import ScriptMachine.Proofs.StoreRoundTrip
import ScriptMachine.Proofs.SymbolTables
/-! Slots in code. Every place of a script where a local is read or set becomes one
instruction that refers to a slot, and the slot is that of the local of the name
written there. -/
namespace ScriptMachine

inductive LocalUse where
  | load (name : String)
  | store (name : String)
  deriving DecidableEq, Repr

namespace LocalUse

def name : LocalUse → String
  | load name => name
  | store name => name

def instruction : LocalUse → Nat → Instruction
  | load _, slot => .loadLocal slot
  | store _, slot => .storeLocal slot

def within? (locals : List Local) (use : LocalUse) : Option Instruction :=
  (findLocal? locals use.name).map fun b => use.instruction b.slot

end LocalUse

namespace Expr

mutual
/-- The places of an expression where a local is used, in the order of their
instructions. A local is set behind all that its value uses. -/
def localUses (lookup : Lookup) : Expr → Nat → List LocalUse
  | constant _ _, _ => []
  | null _, _ => []
  | localRef name _, _ => [.load name]
  | argument _ _, _ => []
  | indexed _ key _, query => localUses lookup key query
  | property _ _, _ => []
  | arrayOf _ items _, query => localUsesAll lookup items query
  | assign (localRef name _) value _, query => localUses lookup value query ++ [.store name]
  | assign (indexed _ key _) value _, query =>
    localUses lookup key query ++ localUses lookup value (nextQuery lookup key query)
  | assign (property name _) value _, query =>
    if (lookup.resolveSetter query name).isSome then localUses lookup value (query + 1) else []
  | assign _ _ _, _ => []

def localUsesAll (lookup : Lookup) : List Expr → Nat → List LocalUse
  | [], _ => []
  | item :: items, query =>
    localUses lookup item query ++ localUsesAll lookup items (nextQuery lookup item query)
end

attribute [simp] localUses localUsesAll

end Expr

def Part.localUses (lookup : Lookup) : Part → Nat → List LocalUse
  | value e, query => e.localUses lookup query
  | converted _ e, query => e.localUses lookup query
  | items _ _ exprs, query => Expr.localUsesAll lookup exprs query
  | assignment _ target e span, query => (Expr.assign target e span).localUses lookup query

def Stmt.localUses (lookup : Lookup) : Stmt → Nat → List LocalUse
  | declare name init _, query => init.localUses lookup query ++ [.store name]
  | assign target value span, query => (Expr.assign target value span).localUses lookup query
  | evaluate e _, query => e.localUses lookup query

def bodyLocalUses (lookup : Lookup) : List Stmt → Nat → List LocalUse
  | [], _ => []
  | stmt :: rest, query =>
    stmt.localUses lookup query ++ bodyLocalUses lookup rest (stmt.nextQuery lookup query)

def Slotted (locals : List Local) (code : List Instruction) (uses : List LocalUse) : Prop :=
  (code.filter (·.slot?.isSome)).map some = uses.map (·.within? locals)

/-- Code made while a scope had some calls, and the uses of locals in it. The slots
are right for the scope left and for every later one. -/
structure Refers (before after : Scope) (code : List Instruction) (uses : List LocalUse) :
    Prop where
  calls : ∃ calls, after = before.after calls
  slotted : ∀ locals, after.locals <+: locals → Slotted locals code uses

namespace Refers
variable {before middle after : Scope} {code first second : List Instruction}
variable {uses more : List LocalUse}

theorem grows (refers : Refers before after code uses) : before.locals <+: after.locals := by
  obtain ⟨calls,rfl⟩ := refers.calls
  exact before.afterGrows calls

theorem nil (scope : Scope) : Refers scope scope [] [] :=
  ⟨⟨[],rfl⟩,fun _ _ => rfl⟩

theorem append (left : Refers before middle first uses) (right : Refers middle after second more) :
    Refers before after (first ++ second) (uses ++ more) := by
  obtain ⟨early,rfl⟩ := left.calls
  obtain ⟨late,rfl⟩ := right.calls
  refine ⟨⟨early ++ late,(before.afterAppend early late).symm⟩,?_⟩
  intro locals grown
  have one := left.slotted locals (right.grows.trans grown)
  have two := right.slotted locals grown
  simp only [Slotted,List.filter_append,List.map_append] at one two ⊢
  rw [one,two]

theorem plain {i : Instruction} (other : i.slot? = none) (scope : Scope) :
    Refers scope scope [i] [] := by
  refine ⟨⟨[],rfl⟩,?_⟩
  intro locals grown
  simp [Slotted,other]

theorem ahead {i : Instruction} (other : i.slot? = none) (refers : Refers before after code uses) :
    Refers before after (i :: code) uses :=
  (plain other before).append refers

theorem behind {i : Instruction} (other : i.slot? = none)
    (refers : Refers before after code uses) : Refers before after (code ++ [i]) uses := by
  have whole := refers.append (plain other after)
  rwa [List.append_nil] at whole

theorem ofUse {scope : Scope} (use : LocalUse) {b : Binding}
    (found : scope.find? use.name = some b) :
    Refers scope scope [use.instruction b.slot] [use] := by
  refine ⟨⟨[],rfl⟩,?_⟩
  intro locals grown
  have still : (⟨locals⟩ : Scope).find? use.name = some b := Scope.findGrown grown found
  have refer : (use.instruction b.slot).slot? = some b.slot := by cases use <;> rfl
  have slotted : use.within? locals = some (use.instruction b.slot) := by
    rw [Scope.find?] at still
    rw [LocalUse.within?,still,Option.map_some]
  simp [Slotted,slotted,refer]

theorem ofCall (scope : Scope) (call : ScopeCall) : Refers scope (scope.call call).2 [] [] :=
  ⟨⟨[call],rfl⟩,fun _ _ => rfl⟩

theorem ofCoerces {top wanted : StaticType} (coerces : Coerces top wanted code) (scope : Scope) :
    Refers scope scope code [] := by
  cases coerces with
  | same | object | array => exact nil scope
  | boxed | forced => exact plain rfl scope
  | boxedForced => exact (plain rfl scope).ahead rfl

end Refers

section Compiling
open CompileM
variable {setup : CompileSetup} {d after : Draft}

theorem Coded.refers {part : Part} {piece : Piece} (coded : Coded setup part d piece after) :
    Refers d.scope after.scope piece.code (part.localUses setup.lookup d.queries) := by
  induction coded with
  | constant | null | argument | unread => exact .plain rfl _
  | @localRef d name b span found => exact .ofUse (.load name) found
  | indexed base span keys ih => exact .ahead rfl (ih.behind rfl)
  | read span known recorded =>
    rw [(recordGrows recorded).2.1]
    exact .plain rfl _
  | arrayOf span known few filled ih => exact .ahead rfl (.ahead rfl ih)
  | assign span assigned ih => exact ih
  | @converted d piece after e wanted conversion made coerces ih =>
    have whole := ih.append (.ofCoerces coerces after.scope)
    rwa [List.append_nil] at whole
  | noItems => exact .nil _
  | moreItems first rest ih others =>
    rw [first.asks] at others
    exact .ahead rfl (.ahead rfl (ih.append (others.ahead rfl)))
  | @assignLocal d code after name value form place span made ih =>
    -- the name has its slot before the value is compiled, which may use it
    have named : Refers d.scope (bound d name setup.options.implicitType place).scope [] [] :=
      .ofCall d.scope (.bindOrReuse name setup.options.implicitType place)
    have found := Scope.findGrown ih.grows
      (d.scope.bindOrReuseFind name setup.options.implicitType place)
    have stored := Refers.ofUse (.store name) found
    cases form with
    | statement => exact (named.append ih).append stored
    | expression => exact (named.append ih).append (stored.ahead rfl)
  | assignStored form base place span keys made keyIh ih =>
    rw [keys.asks] at ih
    exact .ahead rfl ((keyIh.append ih).behind rfl)
  | unwritten form place value span unknown =>
    simp only [Part.localUses,Expr.localUses,unknown,Option.isSome_none,Bool.false_eq_true,if_false]
    exact .plain rfl _
  | @write d code middle after name p index value form place span known made recorded ih =>
    simp only [Part.localUses,Expr.localUses,known,Option.isSome_some,if_true]
    rw [(recordGrows recorded).2.1]
    have setter : Refers middle.scope middle.scope [.dup,.callSetter index] [] :=
      .ahead rfl (.plain rfl middle.scope)
    have called := ih.append setter
    rwa [List.append_nil] at called

theorem Refers.discarded {before later : Scope} {piece : Piece} {uses : List LocalUse}
    (refers : Refers before later piece.code uses) :
    Refers before later piece.discarded uses := by
  unfold Piece.discarded
  split
  · exact refers
  · exact refers.behind rfl

theorem StmtCoded.refers {stmt : Stmt} {code : List Instruction}
    (coded : StmtCoded setup stmt d code after) :
    Refers d.scope after.scope code (stmt.localUses setup.lookup d.queries) := by
  cases coded with
  | @declare d piece middle name init span made free =>
    have declared := Refers.ofCall middle.scope (.declare name piece.type span)
    rw [Scope.callDeclared free] at declared
    have bound : (middle.scope.bind name piece.type span).2.find? name =
        some (middle.scope.bind name piece.type span).1 := by
      simp [free]
    have stored := (made.refers.append declared).append (.ofUse (.store name) bound)
    rwa [List.append_nil,List.append_nil] at stored
  | assign span made => exact made.refers.discarded
  | evaluate span made => exact made.refers.discarded

theorem Lowers.referring {body : List Stmt} {code : List Instruction}
    (lowers : Lowers setup body d code after) :
    Refers d.scope after.scope code (bodyLocalUses setup.lookup body d.queries) := by
  induction lowers with
  | nil d => exact .nil _
  | cons first others ih =>
    rw [(Stmt.codes first).asks] at ih
    exact (Stmt.codes first).refers.append ih

end Compiling

namespace CompiledMethod

def slotCalls (method : CompiledMethod) : List Instruction :=
  method.listing.instructions.filter (·.slot?.isSome)

variable {method : CompiledMethod} {host : Host} {limit : Nat} {arguments : List Value}
variable {context last : Context} {frame : Frame}

theorem frameLength (ran : (execute host limit method arguments).run context = .ok frame last) :
    frame.locals.length = method.locals.length := by
  obtain ⟨m,finished,rfl,_⟩ := executeOk ran
  have fit := method.pointLocals host limit arguments context method.listing.instructions.length
  rw [point,List.take_length,finished] at fit
  exact fit.1

theorem frameByName (ran : (execute host limit method arguments).run context = .ok frame last)
    (name : String) :
    frame.get? name = (method.local? name).bind (fun b => frame.locals[b.slot]?) ∧
      (frame.get? name).isSome = (method.local? name).isSome := by
  have sized := frameLength ran
  obtain ⟨m,_,rfl,_⟩ := executeOk ran
  cases found : method.local? name with
  | none =>
    have absent : (method.locals.map (·.name)).findIdx (· == name) = method.locals.length := by
      rw [List.findIdx_eq_length_of_false,List.length_map]
      simpa using findLocalFromNone.mp found
    rw [Frame.get?,absent,← sized,List.getElem?_eq_none (Nat.le_refl _)]
    exact ⟨rfl,rfl⟩
  | some b =>
    obtain ⟨below,_⟩ := List.getElem?_eq_some_iff.mp (findLocalSound found).1
    rw [← sized] at below
    rw [Frame.getFound found,List.getElem?_eq_getElem below]
    exact ⟨(List.getElem?_eq_getElem below).symm,rfl⟩

end CompiledMethod

theorem slotsFollowFirstBindings (hash : String → Nat) :
    (∀ calls, (boundNames calls).length < UInt32.size →
      (({} : SymbolTable hash).after calls).FirstWins calls) ∧
    (∀ calls call, ((({} : SymbolTable hash).after calls).call call).1 =
      ((({} : Scope).after calls).call call).1.map (·.slotted)) ∧
    ∀ setup method queries compiled, (compileMethod setup method queries).1 = .ok compiled →
      (∃ calls, compiled.locals = (({} : Scope).after calls).locals ∧
        (compiled.locals.length < UInt32.size →
          (({} : SymbolTable hash).after calls).intoLocals = slotted compiled.locals)) ∧
      compiled.slotCalls.map some =
        (bodyLocalUses setup.lookup method.body queries).map (·.within? compiled.locals) ∧
      ∀ host limit arguments context frame last,
        (execute host limit compiled arguments).run context = .ok frame last → ∀ name,
          frame.get? name = (compiled.local? name).bind (fun b => frame.locals[b.slot]?) ∧
            (frame.get? name).isSome = (compiled.local? name).isSome := by
  have tabulates (calls : List ScopeCall) :
      (({} : SymbolTable hash).after calls).Tabulates (({} : Scope).after calls) :=
    SymbolTable.Tabulates.empty.calls calls
  refine ⟨?_,fun calls call => ((tabulates calls).called call).1,?_⟩
  · intro calls few
    have reflects := Scope.afterReflects calls
    rw [← reflects.size] at few
    exact (tabulates calls).firstWins reflects few
  · intro setup method queries compiled ok
    obtain ⟨draft,lowers,locals,_⟩ := methodLowers ok
    have refers := lowers.referring
    obtain ⟨calls,made⟩ := refers.calls
    have same : compiled.locals = (({} : Scope).after calls).locals :=
      locals.trans (congrArg Scope.locals made)
    refine ⟨⟨calls,same,?_⟩,?_,?_⟩
    · intro few
      rw [same] at few ⊢
      exact (tabulates calls).sorted few
    · exact refers.slotted compiled.locals (locals ▸ List.prefix_refl _)
    · intro host limit arguments context frame last ran name
      exact CompiledMethod.frameByName ran name

def rebinding : List ScopeCall :=
  [.bindOrReuse "x" .int .start,.declare "y" .string .start,.declare "x" .object .start,
    .lookup "x" .start]

def setsThroughOther : Method :=
  ⟨"main",[.assign (.localRef "x" .start)
    (.assign (.localRef "y" .start) (.localRef "x" .start) .start) .start],.start⟩

theorem rebindingKeepsFirst :
    ((boundNames rebinding).length < UInt32.size ∧ boundNames rebinding = ["x","y"]) ∧
    (({} : SymbolTable String.length).after rebinding).FirstWins rebinding ∧
    (({} : SymbolTable String.length).after rebinding).entries.values =
      [⟨"y",1,.string,.start⟩,⟨"x",0,.int,.start⟩] ∧
    (({} : SymbolTable String.length).after rebinding).intoLocals.map (·.name) = ["x","y"] ∧
    ∃ compiled frame last, (compileMethod ⟨⟨{},none⟩,{}⟩ setsThroughOther 0).1 = .ok compiled ∧
      compiled.slotCalls = [.loadLocal 0,.storeLocal 1,.storeLocal 0] ∧
      bodyLocalUses ⟨{},none⟩ setsThroughOther.body 0 = [.load "x",.store "y",.store "x"] ∧
      compiled.slotCalls.map some =
        (bodyLocalUses ⟨{},none⟩ setsThroughOther.body 0).map (·.within? compiled.locals) ∧
      (execute CompiledMethod.quietHost 2 compiled []).run {} = .ok frame last ∧
      frame.get? "y" = (compiled.local? "y").bind (fun b => frame.locals[b.slot]?) := by
  obtain ⟨histories,_,methods⟩ := slotsFollowFirstBindings String.length
  obtain ⟨_,calls,frames⟩ := methods ⟨⟨{},none⟩,{}⟩ setsThroughOther 0 _ rfl
  have names : boundNames rebinding = ["x","y"] := by decide +kernel
  have few : (boundNames rebinding).length < UInt32.size := by rw [names]; decide
  have wins := histories rebinding few
  refine ⟨⟨few,names⟩,wins,by decide +kernel,wins.locals.trans names,_,_,_,rfl,rfl,rfl,calls,rfl,?_⟩
  exact (frames CompiledMethod.quietHost 2 [] {} _ _ rfl "y").1

end ScriptMachine
