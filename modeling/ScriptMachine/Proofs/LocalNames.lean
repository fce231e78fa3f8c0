import ScriptMachine.Proofs.TwinTrees
import ScriptMachine.Proofs.TypedMemory
import ScriptMachine.Proofs.Emission
/-! Names of locals. A name serves to tell locals apart, and nothing else is made of
it: a method whose locals are renamed, no two to the same name, compiles to the same
code in the same slots, or is refused in the same place, and runs alike. -/
namespace ScriptMachine

namespace Expr

mutual
def renamed (f : String → String) : Expr → Expr
  | constant c span => constant c span
  | null span => null span
  | localRef name span => localRef (f name) span
  | argument index span => argument index span
  | indexed base key span => indexed (renamed f base) (renamed f key) span
  | property name span => property name span
  | arrayOf element items span => arrayOf element (renamedAll f items) span
  | assign target value span => assign (renamed f target) (renamed f value) span

def renamedAll (f : String → String) : List Expr → List Expr
  | [] => []
  | e :: es => renamed f e :: renamedAll f es
end

theorem renamedAllMap (f : String → String) (items : List Expr) :
    renamedAll f items = items.map (renamed f) := by
  induction items with
  | nil => rfl
  | cons item items ih => rw [renamedAll,ih,List.map_cons]

theorem renamedRelabels (f : String → String) : Relabels f id (renamed f) := by
  constructor <;> intros <;> simp only [renamed,renamedAllMap,id]

end Expr

def Stmt.renamed (f : String → String) : Stmt → Stmt
  | declare name init span => declare (f name) (init.renamed f) span
  | assign target value span => assign (target.renamed f) (value.renamed f) span
  | evaluate e span => evaluate (e.renamed f) span

def Method.renamed (f : String → String) (method : Method) : Method :=
  { method with body := method.body.map (·.renamed f) }

def Local.renamed (f : String → String) (entry : Local) : Local :=
  { entry with name := f entry.name }

def Binding.renamed (f : String → String) (binding : Binding) : Binding :=
  { binding with entry := binding.entry.renamed f }

def Scope.renamed (f : String → String) (scope : Scope) : Scope :=
  ⟨scope.locals.map (·.renamed f)⟩

def Draft.renamed (f : String → String) (d : Draft) : Draft :=
  { d with scope := d.scope.renamed f }

def CompileError.renamed (f : String → String) : CompileError → CompileError
  | duplicateDeclaration name first span => duplicateDeclaration (f name) first span
  | undefinedVariable name span => undefinedVariable (f name) span
  | e => e

def CompiledMethod.renamed (f : String → String) (method : CompiledMethod) : CompiledMethod :=
  { method with locals := method.locals.map (·.renamed f) }

def Frame.renamed (f : String → String) (frame : Frame) : Frame :=
  { frame with names := frame.names.map f }

section Names
variable {f : String → String}

theorem findLocalFromRenamed (injective : Function.Injective f) (slot : Nat) (locals : List Local)
    (name : String) :
    findLocalFrom slot (locals.map (·.renamed f)) (f name) =
      (findLocalFrom slot locals name).map (·.renamed f) := by
  induction locals generalizing slot with
  | nil => rfl
  | cons entry rest ih =>
    have named : (entry.renamed f).name = f entry.name := rfl
    simp only [List.map_cons,findLocalFrom,named,injective.eq_iff]
    split
    · rfl
    · exact ih (slot + 1)

theorem Scope.findRenamed (injective : Function.Injective f) (scope : Scope) (name : String) :
    (scope.renamed f).find? (f name) = (scope.find? name).map (·.renamed f) :=
  findLocalFromRenamed injective 0 scope.locals name

theorem Scope.bindRenamed (scope : Scope) (name : String) (type : StaticType) (span : Span) :
    (scope.renamed f).bind (f name) type span =
      ((scope.bind name type span).1.renamed f,(scope.bind name type span).2.renamed f) := by
  simp [bind,renamed,size,Binding.renamed,Local.renamed]

theorem Frame.getRenamed (injective : Function.Injective f) (frame : Frame) (name : String) :
    (frame.renamed f).get? (f name) = frame.get? name := by
  have same : ((fun other => other == f name) ∘ f) = fun other => other == name := by
    funext other
    rw [Function.comp_apply,Bool.eq_iff_iff,beq_iff_eq,beq_iff_eq]
    exact injective.eq_iff
  simp only [get?,renamed,List.findIdx_map,same]

end Names

def renamedContrast (f : String → String) (setup : CompileSetup) : Contrast where
  setup := setup
  other := setup
  names a b := b = f a
  spans := Eq
  asked := Eq
  served := Eq
  keys a b := b = a
  reads _ := True
  writes _ := True
  drafts d e := e = d.renamed f
  codes _ code other _ := other = code

section Methods
variable {f : String → String} {setup : CompileSetup}

theorem renamedSameCode : (renamedContrast f setup).SameCode :=
  ⟨fun _ _ => .rfl,fun _ _ _ _ => .rfl⟩

theorem renamedKeeps (injective : Function.Injective f) : (renamedContrast f setup).Keeps where
  toKeepsCodes := renamedSameCode.keeps
  implicit := rfl
  find := by
    rintro d _ a _ rfl rfl
    have found : (d.renamed f).scope.find? (f a) = _ := d.scope.findRenamed injective a
    rw [found]
    exact relMap (fun b => ⟨rfl,rfl,rfl⟩) _
  bind := by
    rintro d _ a _ s _ type rfl rfl rfl
    have bound : (d.renamed f).scope.bind (f a) type s = _ := d.scope.bindRenamed a type s
    rw [bound]
    exact ⟨⟨rfl,rfl,rfl⟩,rfl⟩
  ask := by
    rintro d _ rfl
    rfl
  getter := by
    rintro d _ a _ rfl rfl
    exact relSame _
  setter := by
    rintro d _ a _ rfl rfl
    exact relSame _
  place := by
    rintro d _ p _ rfl rfl
    rfl
  sized := by
    rintro d _ rfl
    rfl
  record := by
    rintro d _ p _ rfl rfl
    rfl

theorem renamedAdmits : (renamedContrast f setup).Admits f id :=
  ⟨fun _ => rfl,fun _ => rfl,fun _ => rfl,fun _ => trivial,fun _ => trivial⟩

theorem Expr.renamedTwin (e : Expr) (role : Role) : e.Twin (renamedContrast f setup) role (e.renamed f) :=
  (renamedRelabels f).twin renamedAdmits e role

theorem Stmt.renamedTwin (stmt : Stmt) : stmt.Twin (renamedContrast f setup) (stmt.renamed f) := by
  cases stmt with
  | declare name init span => exact .declare rfl rfl (init.renamedTwin .value)
  | assign target value span =>
    have whole : (Expr.assign target value span).Twin (renamedContrast f setup) .value _ :=
      Expr.renamedTwin _ .value
    rw [Expr.renamed] at whole
    exact .assign rfl whole
  | evaluate e span => exact .evaluate rfl (e.renamedTwin .value)

theorem methodRenamed (injective : Function.Injective f) (setup : CompileSetup) (method : Method)
    (queries : Nat) :
    compileMethod setup (method.renamed f) queries =
      (((compileMethod setup method queries).1.mapError (·.renamed f)).map (·.renamed f),
        (compileMethod setup method queries).2) := by
  have emits : (renamedContrast f setup).KeepsEmitters Eq := by
    intro a b code other s t same clears places
    cases same
    cases places
    rw [clears.same renamedSameCode]
  have bodies : List.Forall₂ (Stmt.Twin (renamedContrast f setup)) method.body
      (method.renamed f).body := by
    refine List.forall₂_map_right_iff.mpr (List.forall₂_same.mpr ?_)
    intro stmt _
    exact stmt.renamedTwin
  rcases methodTwins (renamedKeeps injective) emits bodies queries queries rfl rfl with
      ⟨one,two,d,_,told,rfl,left,right⟩ | ⟨a,_,d,_,rfl,rfl,left,right⟩
  · have same : two = one.renamed f := by cases told <;> simp_all [renamedContrast,CompileError.renamed]
    rw [show compileMethod setup method queries = _ from left]
    rw [show compileMethod setup (method.renamed f) queries = _ from right,same]
    rfl
  · rw [show compileMethod setup method queries = _ from left]
    rw [show compileMethod setup (method.renamed f) queries = _ from right]
    rfl

theorem executeRenamed (f : String → String) (host : Host) (limit : Nat) (method : CompiledMethod)
    (arguments : List Value) :
    execute host limit (method.renamed f) arguments =
      Frame.renamed f <$> execute host limit method arguments := by
  have types : (method.renamed f).locals.map (·.type) = method.locals.map (·.type) := by
    rw [CompiledMethod.renamed,List.map_map]
    rfl
  have initial (m : CompiledMethod) :
      m.initialLocals = (m.locals.map (·.type)).map StaticType.initial := by
    rw [List.map_map]
    rfl
  have names : (method.renamed f).locals.map (·.name) = (method.locals.map (·.name)).map f := by
    rw [CompiledMethod.renamed,List.map_map,List.map_map]
    rfl
  funext context
  have started : (method.renamed f).start arguments context = method.start arguments context := by
    rw [CompiledMethod.start,initial,types,← initial]
    rfl
  have ran : runFrom ((method.renamed f).setting host limit context) 0
      (method.renamed f).listing.instructions =
      runFrom (method.setting host limit context) 0 method.listing.instructions :=
    runMethod types rfl host _ limit 0 _
  have first := CompiledMethod.executeRun host limit method arguments context
  have second := CompiledMethod.executeRun host limit (method.renamed f) arguments context
  rw [started,ran,names] at second
  simp only [EStateM.run,Functor.map,EStateM.map] at first second ⊢
  rw [first,second]
  cases runFrom (method.setting host limit context) 0 method.listing.instructions
      (method.start arguments context) with
  | ok _ m => rfl
  | error e m => rfl

end Methods

theorem localNamesAreImmaterial {f : String → String} (injective : Function.Injective f)
    (setup : CompileSetup) (method : Method) (queries : Nat) :
    compileMethod setup (method.renamed f) queries =
      (((compileMethod setup method queries).1.mapError (·.renamed f)).map (·.renamed f),
        (compileMethod setup method queries).2) ∧
    (∀ host limit compiled arguments,
      execute host limit (CompiledMethod.renamed f compiled) arguments =
        Frame.renamed f <$> execute host limit compiled arguments) ∧
    ∀ (frame : Frame) (name : String), (frame.renamed f).get? (f name) = frame.get? name :=
  ⟨methodRenamed injective setup method queries,executeRenamed f,Frame.getRenamed injective⟩

def swapped (name : String) : String :=
  if name = "x" then "y" else if name = "y" then "x" else name

theorem swappedInjective : Function.Injective swapped := by
  intro a b same
  unfold swapped at same
  grind

def nestedNames : Method :=
  ⟨"main",[
    .assign (.localRef "x" .start)
      (.assign (.localRef "y" .start) (.constant (.int 5) .start) .start) .start,
    .assign (.indexed (.localRef "x" .start) (.constant (.string "x") .start) .start)
      (.property "x" .start) .start,
    .assign (.localRef "x" .start) (.constant (.int 7) .start) .start],.start⟩

def repeatedName : Method :=
  ⟨"main",[.declare "x" (.constant (.int 5) .start) .start,
    .declare "x" (.localRef "x" .start) ⟨2,3,4⟩],.start⟩

def returned? {ε σ α : Type} : EStateM.Result ε σ α → Option α
  | .ok a _ => some a
  | .error _ _ => none

theorem returnedMap {ε σ α β : Type} (g : α → β) (x : EStateM ε σ α) (s : σ) :
    returned? ((g <$> x).run s) = (returned? (x.run s)).map g := by
  simp only [EStateM.run,Functor.map,EStateM.map]
  cases x s <;> rfl

theorem swappedNamesRunAlike :
    Function.Injective swapped ∧
    (∃ compiled, (compileMethod ⟨⟨{},none⟩,{}⟩ nestedNames 0).1 = .ok compiled ∧
      (compileMethod ⟨⟨{},none⟩,{}⟩ (nestedNames.renamed swapped) 0).1 =
        .ok (compiled.renamed swapped) ∧
      returned? ((execute CompiledMethod.quietHost 8 compiled []).run {}) =
        some ⟨["x","y"],[.int 7,.int 5],[]⟩ ∧
      returned? ((execute CompiledMethod.quietHost 8 (compiled.renamed swapped) []).run {}) =
        some ⟨["y","x"],[.int 7,.int 5],[]⟩) ∧
    (compileMethod ⟨⟨{},none⟩,{}⟩ (repeatedName.renamed swapped) 0).1 =
      .error (.duplicateDeclaration "y" .start ⟨2,3,4⟩) := by
  obtain ⟨compiles,runs,_⟩ :=
    localNamesAreImmaterial swappedInjective ⟨⟨{},none⟩,{}⟩ nestedNames 0
  obtain ⟨refused,_,_⟩ := localNamesAreImmaterial swappedInjective ⟨⟨{},none⟩,{}⟩ repeatedName 0
  obtain ⟨compiled,ok,ran⟩ : ∃ compiled,
      (compileMethod ⟨⟨{},none⟩,{}⟩ nestedNames 0).1 = .ok compiled ∧
      returned? ((execute CompiledMethod.quietHost 8 compiled []).run {}) =
        some ⟨["x","y"],[.int 7,.int 5],[]⟩ :=
    ⟨_,rfl,by decide +kernel⟩
  have twice : (compileMethod ⟨⟨{},none⟩,{}⟩ repeatedName 0).1 =
      .error (.duplicateDeclaration "x" .start ⟨2,3,4⟩) := rfl
  refine ⟨swappedInjective,⟨compiled,ok,?_,ran,?_⟩,?_⟩
  · rw [compiles,ok]
    rfl
  · rw [runs,returnedMap,ran]
    decide +kernel
  · rw [refused,twice]
    rfl

end ScriptMachine
