import ScriptMachine.Proofs.FailedRun
import ScriptMachine.Proofs.Matching
import ScriptMachine.Proofs.Transition
/-! What is on the stack at each place of compiled code, known without running
it: values of static types, the store, and arrays that a literal is still
filling. With it goes the number of slots whose names are bound. A fact that the
steps of such code keep holds wherever a run of the code gets to. -/
namespace ScriptMachine

inductive Kind where
  | value (type : StaticType)
  | store
  -- an array that its literal is still filling
  | building (element : StaticType)
  -- the copy of such an array through which its next element is stored
  | target (element : StaticType)
  deriving DecidableEq, Repr

/-- The slots below `bound` belong to names that are bound. -/
structure Stage where
  bound : Nat
  stack : List Kind
  deriving DecidableEq, Repr

inductive Does (method : CompiledMethod) : Instruction → Stage → Stage → Prop where
  | pushConst {bound stack} (c : Constant) :
      Does method (.pushConst c) ⟨bound,stack⟩ ⟨bound,.value c.type :: stack⟩
  | pushNull {bound stack} :
      Does method .pushNull ⟨bound,stack⟩ ⟨bound,.value .object :: stack⟩
  | pop {bound stack type} : Does method .pop ⟨bound,.value type :: stack⟩ ⟨bound,stack⟩
  | dup {bound stack type} :
      Does method .dup ⟨bound,.value type :: stack⟩ ⟨bound,.value type :: .value type :: stack⟩
  | dupBuilding {bound stack element} :
      Does method .dup ⟨bound,.building element :: stack⟩
        ⟨bound,.target element :: .building element :: stack⟩
  | box {bound stack type} (valueType : type.isValueType = true) :
      Does method (.box type) ⟨bound,.value type :: stack⟩ ⟨bound,.value .object :: stack⟩
  | loadLocal {bound stack slot entry} (ready : slot < bound)
      (slotted : method.locals[slot]? = some entry) :
      Does method (.loadLocal slot) ⟨bound,stack⟩ ⟨bound,.value entry.type :: stack⟩
  | storeLocal {bound stack slot entry} (ready : slot < bound)
      (slotted : method.locals[slot]? = some entry) :
      Does method (.storeLocal slot) ⟨bound,.value entry.type :: stack⟩ ⟨bound,stack⟩
  | declareLocal {bound stack entry} (slotted : method.locals[bound]? = some entry) :
      Does method (.storeLocal bound) ⟨bound,.value entry.type :: stack⟩ ⟨bound + 1,stack⟩
  | loadArgument {bound stack} (index : Nat) :
      Does method (.loadArgument index) ⟨bound,stack⟩ ⟨bound,.value (.array .object) :: stack⟩
  | loadStore {bound stack} : Does method .loadStore ⟨bound,stack⟩ ⟨bound,.store :: stack⟩
  | force {bound stack type} (target : Scalar) (reference : type.isValueType = false) :
      Does method (.call (.force target)) ⟨bound,.value type :: stack⟩
        ⟨bound,.value target.type :: stack⟩
  | storeGet {bound stack} :
      Does method (.call .storeGet) ⟨bound,.value .string :: .store :: stack⟩
        ⟨bound,.value .object :: stack⟩
  | storeSet {bound stack} :
      Does method (.call .storeSet)
        ⟨bound,.value .object :: .value .string :: .store :: stack⟩ ⟨bound,.value .object :: stack⟩
  | callGetter {bound stack} (index : Nat) :
      Does method (.callGetter index) ⟨bound,stack⟩ ⟨bound,.value .object :: stack⟩
  | callSetter {bound stack} (index : Nat) :
      Does method (.callSetter index) ⟨bound,.value .object :: stack⟩ ⟨bound,stack⟩
  | newArray {bound stack} (element : StaticType) :
      Does method (.newArray element) ⟨bound,.value .int :: stack⟩ ⟨bound,.building element :: stack⟩
  | storeElement {bound stack element} :
      Does method .storeElement
        ⟨bound,.value element :: .value .int :: .target element :: .building element :: stack⟩
        ⟨bound,.building element :: stack⟩

/-- What changes between two instructions, without an instruction of its own. -/
inductive Adjusts (method : CompiledMethod) (implicit : StaticType) : Stage → Stage → Prop where
  | bind {bound stack entry} (slotted : method.locals[bound]? = some entry)
      (typed : entry.type = implicit) : Adjusts method implicit ⟨bound,stack⟩ ⟨bound + 1,stack⟩
  | publish {bound stack element} :
      Adjusts method implicit ⟨bound,.building element :: stack⟩
        ⟨bound,.value (.array element) :: stack⟩
  | asObject {bound stack type} (reference : type.isValueType = false) :
      Adjusts method implicit ⟨bound,.value type :: stack⟩ ⟨bound,.value .object :: stack⟩
  | asObjects {bound stack element} :
      Adjusts method implicit ⟨bound,.value (.array element) :: stack⟩
        ⟨bound,.value (.array .object) :: stack⟩

inductive Flows (method : CompiledMethod) (implicit : StaticType) :
    Stage → List Instruction → Stage → Prop where
  | nil (a) : Flows method implicit a [] a
  | step {i code a b c} (does : Does method i a b) (rest : Flows method implicit b code c) :
      Flows method implicit a (i :: code) c
  | adjust {code a b c} (adjusts : Adjusts method implicit a b)
      (rest : Flows method implicit b code c) : Flows method implicit a code c

namespace Flows
variable {method : CompiledMethod} {implicit : StaticType} {a b c : Stage}
variable {first second : List Instruction} {i : Instruction}

theorem append (left : Flows method implicit a first b)
    (right : Flows method implicit b second c) : Flows method implicit a (first ++ second) c := by
  induction left with
  | nil a => exact right
  | step does rest ih => exact .step does (ih right)
  | adjust adjusts rest ih => exact .adjust adjusts (ih right)

theorem one (does : Does method i a b) : Flows method implicit a [i] b :=
  .step does (.nil b)

end Flows

section Compiling
variable {method : CompiledMethod} {setup : CompileSetup} {d after : Draft}
variable {implicit : StaticType} {stack : List Kind}

theorem Coerces.flows {top wanted : StaticType} {code : List Instruction} {bound : Nat}
    (coerces : Coerces top wanted code) :
    Flows method implicit ⟨bound,.value top :: stack⟩ code ⟨bound,.value wanted :: stack⟩ := by
  cases coerces with
  | same => exact .nil _
  | boxed top valueType => exact .one (.box valueType)
  | object top reference other => exact .adjust (.asObject reference) (.nil _)
  | array element other => exact .adjust .asObjects (.nil _)
  | forced top target reference other => exact .one (.force target reference)
  | boxedForced top target valueType other =>
    exact .step (.box valueType) (.one (.force target rfl))

theorem slotReady {name : String} {b : Binding} (found : d.scope.find? name = some b)
    (part : d.PartOf method) :
    b.slot < d.scope.size ∧ method.locals[b.slot]? = some b.entry :=
  ⟨(List.getElem?_eq_some_iff.mp (findLocalSound found).1).1,part.slot found⟩

theorem bindFlows {name : String} {type : StaticType} {span : Span} {code : List Instruction}
    {last : Stage} (part : (CompileM.bound d name type span).PartOf method)
    (rest : Flows method type ⟨(CompileM.bound d name type span).scope.size,stack⟩ code last) :
    Flows method type ⟨d.scope.size,stack⟩ code last := by
  unfold CompileM.bound Scope.bindOrReuse at part rest
  cases found : d.scope.find? name with
  | some b =>
    rw [found] at rest
    exact rest
  | none =>
    rw [found] at part rest
    have slotted : method.locals[d.scope.size]? = some ⟨name,type,span⟩ :=
      prefixAt part.locals (Scope.slotBind ..)
    simp only [Scope.sizeBind] at rest
    exact .adjust (.bind slotted rfl) rest

def Part.under (stack : List Kind) : Part → List Kind
  | .items element _ _ => .building element :: stack
  | _ => stack

def Part.leaves (stack : List Kind) (type : StaticType) : Part → List Kind
  | .items element _ _ => .building element :: stack
  | .assignment .statement (.localRef _ _) _ _ => stack
  | _ => .value type :: stack

theorem Coded.flows {part : Part} {piece : Piece} (coded : Coded setup part d piece after)
    (stack : List Kind) (inside : after.PartOf method) :
    Flows method setup.options.implicitType ⟨d.scope.size,part.under stack⟩ piece.code
      ⟨after.scope.size,part.leaves stack piece.type⟩ := by
  induction coded generalizing stack with
  | constant c => exact .one (.pushConst c)
  | null => exact .one .pushNull
  | localRef span found =>
    obtain ⟨ready,slotted⟩ := slotReady found inside
    exact .one (.loadLocal ready slotted)
  | argument => exact .one (.loadArgument 0)
  | indexed base span keys ih =>
    exact .step .loadStore ((ih (.store :: stack) inside).append (.one .storeGet))
  | unread => exact .one .pushNull
  | read span known recorded =>
    rw [(recordGrows recorded).2.1]
    exact .one (.callGetter _)
  | @arrayOf d code after name element items span known few filled ih =>
    have whole := (ih stack inside).append (.adjust .publish (.nil _))
    rw [List.append_nil] at whole
    exact .step (.pushConst (.int (Int32.ofNat items.length))) (.step (.newArray element) whole)
  | assign span assigned ih => exact ih stack inside
  | converted made coerces ih => exact (ih stack inside).append coerces.flows
  | noItems => exact .nil _
  | @moreItems d code middle more after element index item items first rest ih others =>
    have flows := ih (.value .int :: .target element :: .building element :: stack)
      (rest.grows.partOf inside)
    exact .step .dupBuilding (.step (.pushConst (.int (Int32.ofNat index)))
      (flows.append (.step .storeElement (others stack inside))))
  | @assignLocal d code after name value form place span made ih =>
    -- the value may bind more names, but none that hides the slot of this one
    have found := Scope.findGrown made.grows.locals
      (d.scope.bindOrReuseFind name setup.options.implicitType place)
    obtain ⟨ready,slotted⟩ := slotReady found inside
    have flows := ih stack inside
    refine bindFlows (made.grows.partOf inside) ?_
    cases form with
    | statement => exact flows.append (.one (.storeLocal ready slotted))
    | expression => exact flows.append (.step .dup (.one (.storeLocal ready slotted)))
  | assignStored form base place span keys made keyFlows flows =>
    have before := keyFlows (.store :: stack) (made.grows.partOf inside)
    have behind := flows (.value .string :: .store :: stack) inside
    cases form <;> exact .step .loadStore ((before.append behind).append (.one .storeSet))
  | unwritten form => cases form <;> exact .one .pushNull
  | write form place span known made recorded ih =>
    obtain ⟨grown,same,_⟩ := recordGrows recorded
    rw [same]
    have flows := ih stack (grown.partOf inside)
    cases form <;> exact flows.append (.step .dup (.one (.callSetter _)))

theorem discardedFlows {piece : Piece} {a : Stage} {bound : Nat}
    (flows : Flows method implicit a piece.code ⟨bound,.value piece.type :: stack⟩) :
    ∃ left, Flows method implicit a piece.discarded ⟨bound,left⟩ := by
  unfold Piece.discarded
  split
  · exact ⟨_,flows⟩
  · exact ⟨stack,flows.append (.one .pop)⟩

/-- The code of a statement may leave a value behind: one of the type void is not popped. -/
theorem StmtCoded.flows (stack : List Kind) {stmt : Stmt} {code : List Instruction}
    (coded : StmtCoded setup stmt d code after) (part : after.PartOf method) :
    ∃ left, Flows method setup.options.implicitType ⟨d.scope.size,stack⟩ code
      ⟨after.scope.size,left⟩ := by
  cases coded with
  | @declare d piece middle name init span made free =>
    have grown : middle.Grows { middle with scope := (middle.scope.bind name piece.type span).2 } :=
      ⟨List.prefix_append _ _,List.prefix_refl _⟩
    have slotted : method.locals[middle.scope.size]? = some ⟨name,piece.type,span⟩ :=
      prefixAt part.locals (Scope.slotBind ..)
    have flows := made.flows stack (grown.partOf part)
    simp only [Scope.sizeBind]
    exact ⟨stack,flows.append (.one (.declareLocal slotted))⟩
  | assign span made =>
    have flows := made.flows stack part
    cases made with
    | assignLocal => exact ⟨stack,flows⟩
    | assignStored | unwritten | write => exact discardedFlows flows
  | evaluate span made => exact discardedFlows (made.flows stack part)

theorem Lowers.flows (stack : List Kind) {body : List Stmt} {code : List Instruction}
    (lowers : Lowers setup body d code after) (part : after.PartOf method) :
    ∃ left, Flows method setup.options.implicitType ⟨d.scope.size,stack⟩ code
      ⟨after.scope.size,left⟩ := by
  induction lowers generalizing stack with
  | nil d => exact ⟨stack,.nil _⟩
  | cons first others ih =>
    obtain ⟨middle,flows⟩ := (Stmt.codes first).flows stack (others.grows.partOf part)
    obtain ⟨left,more⟩ := ih middle part
    exact ⟨left,flows.append more⟩

end Compiling

theorem methodFlows {setup : CompileSetup} {method : Method} {queries : Nat}
    {compiled : CompiledMethod} (ok : (compileMethod setup method queries).1 = .ok compiled) :
    ∃ last, Flows compiled setup.options.implicitType ⟨0,[]⟩ compiled.listing.instructions last := by
  obtain ⟨draft,lowers,locals,accessors⟩ := methodLowers ok
  have part : draft.PartOf compiled :=
    ⟨locals ▸ List.prefix_refl _,accessors ▸ List.prefix_refl _⟩
  obtain ⟨left,flows⟩ := lowers.flows [] part
  exact ⟨_,flows⟩

structure Kept (setting : Setting) (implicit : StaticType) (holds : Nat → Stage → Machine → Prop) :
    Prop where
  adjusting : ∀ {n a b m}, Adjusts setting.method implicit a b → holds n a m → holds n b m
  stepping : ∀ {n i a b m next}, setting.method.listing.instructions[n]? = some i →
    Does setting.method i a b → holds n a m → (step setting n i).run m = .ok () next →
    holds (n + 1) b next

namespace Kept
variable {setting : Setting} {implicit : StaticType} {holds : Nat → Stage → Machine → Prop}
variable {a c : Stage} {code : List Instruction} {m : Machine} {offset : Nat}

theorem placedCons {instructions : List Instruction} {i : Instruction}
    (placed : instructions.drop offset = i :: code) :
    instructions[offset]? = some i ∧ instructions.drop (offset + 1) = code := by
  constructor
  · have first : (instructions.drop offset)[0]? = some i := by rw [placed]; rfl
    rwa [List.getElem?_drop,Nat.add_zero] at first
  · rw [← List.drop_drop,placed]
    rfl

theorem before (kept : Kept setting implicit holds) (flows : Flows setting.method implicit a code c)
    (placed : setting.method.listing.instructions.drop offset = code) (initial : holds offset a m)
    {k : Nat} {i : Instruction} {reached : Machine} (found : code[k]? = some i)
    (ran : (runFrom setting offset (code.take k)).run m = .ok () reached) :
    ∃ b next, holds (offset + k) b reached ∧ Does setting.method i b next := by
  induction flows generalizing offset m k with
  | nil a => simp at found
  | adjust adjusts rest ih => exact ih placed (kept.adjusting adjusts initial) found ran
  | @step first code a b c does rest ih =>
    obtain ⟨here,behind⟩ := placedCons placed
    cases k with
    | zero =>
      cases ran
      cases found
      exact ⟨a,b,initial,does⟩
    | succ k =>
      rw [List.take_succ_cons,runCons] at ran
      cases stepped : (step setting offset first).run m with
      | error e next =>
        rw [stepped] at ran
        cases ran
      | ok u next =>
        rw [stepped] at ran
        have later := ih behind (kept.stepping here does initial stepped) found ran
        rw [show offset + (k + 1) = offset + 1 + k by omega]
        exact later

theorem finished (kept : Kept setting implicit holds)
    (flows : Flows setting.method implicit a code c)
    (placed : setting.method.listing.instructions.drop offset = code) (initial : holds offset a m)
    {reached : Machine} (ran : (runFrom setting offset code).run m = .ok () reached) :
    holds (offset + code.length) c reached := by
  induction flows generalizing offset m with
  | nil a =>
    cases ran
    exact initial
  | adjust adjusts rest ih => exact ih placed (kept.adjusting adjusts initial) ran
  | @step first code a b c does rest ih =>
    obtain ⟨here,behind⟩ := placedCons placed
    rw [runCons] at ran
    cases stepped : (step setting offset first).run m with
    | error e next =>
      rw [stepped] at ran
      cases ran
    | ok u next =>
      rw [stepped] at ran
      have later := ih behind (kept.stepping here does initial stepped) ran
      rw [List.length_cons,show offset + (code.length + 1) = offset + 1 + code.length by omega]
      exact later

end Kept

namespace CompiledMethod

def Reaches (method : CompiledMethod) (host : Host) (limit : Nat) (arguments : List Value)
    (context : Context) (n : Nat) (m : Machine) : Prop :=
  (runFrom (method.setting host limit context) 0 (method.listing.instructions.take n)).run
    (method.start arguments context) = .ok () m

end CompiledMethod
end ScriptMachine
