import ScriptMachine.Proofs.Lowering
/-! Scopes by their history. Whatever calls a scope has had, it holds the names that
were to be bound, in the order in which each first was, and of each name what the
first of those calls said. -/
namespace ScriptMachine

inductive ScopeCall where
  | declare (name : String) (type : StaticType) (span : Span)
  | lookup (name : String) (span : Span)
  | bindOrReuse (name : String) (type : StaticType) (span : Span)
  | get (name : String)
  | contains (name : String)
  deriving DecidableEq, Repr

inductive ScopeAnswer (α : Type) where
  | bound (a : α)
  | refused (e : CompileError)
  | found (a : Option α)
  | told (known : Bool)
  deriving DecidableEq, Repr

def ScopeAnswer.map {α β : Type} (f : α → β) : ScopeAnswer α → ScopeAnswer β
  | bound a => bound (f a)
  | refused e => refused e
  | found a => found (a.map f)
  | told known => told known

def ScopeCall.name : ScopeCall → String
  | declare name _ _ => name
  | lookup name _ => name
  | bindOrReuse name _ _ => name
  | get name => name
  | contains name => name

def ScopeCall.offer? : ScopeCall → Option Local
  | declare name type span => some ⟨name,type,span⟩
  | bindOrReuse name type span => some ⟨name,type,span⟩
  | lookup _ _ => none
  | get _ => none
  | contains _ => none

def boundNames (calls : List ScopeCall) : List String :=
  ((calls.filterMap (·.offer?)).map (·.name)).eraseDups

def firstOffer? (calls : List ScopeCall) (name : String) : Option Local :=
  (calls.filterMap (·.offer?)).find? (·.name == name)

section Histories
variable {calls : List ScopeCall} {call : ScopeCall} {entry : Local}

theorem silentSnoc (silent : call.offer? = none) :
    (calls ++ [call]).filterMap (·.offer?) = calls.filterMap (·.offer?) := by
  simp [silent]

theorem boundNamesSnoc (asked : call.offer? = some entry) :
    boundNames (calls ++ [call]) =
      if entry.name ∈ boundNames calls then boundNames calls
      else boundNames calls ++ [entry.name] := by
  simp only [boundNames,List.filterMap_append,List.filterMap_cons,asked,List.filterMap_nil,
    List.map_append,List.map_cons,List.map_nil,List.eraseDups_append,List.mem_eraseDups]
  split
  · rename_i known
    simp [List.removeAll,known]
  · rename_i fresh
    simp [List.removeAll,fresh,List.eraseDups_cons]

theorem firstOfferSnoc (asked : call.offer? = some entry) (name : String) :
    firstOffer? (calls ++ [call]) name =
      (firstOffer? calls name).or (if entry.name = name then some entry else none) := by
  simp only [firstOffer?,List.filterMap_append,List.filterMap_cons,asked,List.filterMap_nil,
    List.find?_append,List.find?_singleton,beq_iff_eq]

theorem memBoundNames {name : String} :
    name ∈ boundNames calls ↔ (firstOffer? calls name).isSome = true := by
  rw [boundNames,List.mem_eraseDups,firstOffer?,List.find?_isSome]
  simp only [List.mem_map,beq_iff_eq]

end Histories

namespace Scope

def call (scope : Scope) : ScopeCall → ScopeAnswer Binding × Scope
  | .declare name type span =>
    match scope.declare name type span with
    | .ok (b,next) => (.bound b,next)
    | .error e => (.refused e,scope)
  | .lookup name span =>
    match scope.lookup name span with
    | .ok b => (.bound b,scope)
    | .error e => (.refused e,scope)
  | .bindOrReuse name type span =>
    let (b,next) := scope.bindOrReuse name type span
    (.bound b,next)
  | .get name => (.found (scope.find? name),scope)
  | .contains name => (.told (scope.contains name),scope)

def after (scope : Scope) (calls : List ScopeCall) : Scope :=
  calls.foldl (fun scope call => (scope.call call).2) scope

theorem afterAppend (scope : Scope) (calls more : List ScopeCall) :
    scope.after (calls ++ more) = (scope.after calls).after more :=
  List.foldl_append

theorem callDeclared {scope : Scope} {name : String} (free : scope.find? name = none)
    (type : StaticType) (span : Span) :
    scope.call (.declare name type span) =
      (.bound (scope.bind name type span).1,(scope.bind name type span).2) := by
  simp only [call,declare,free]

theorem callLeaves (scope : Scope) (call : ScopeCall) :
    (scope.call call).2 = match call.offer? with
      | some entry => (scope.bindOrReuse entry.name entry.type entry.span).2
      | none => scope := by
  cases call with
  | declare name type span =>
    simp only [Scope.call,declare,bindOrReuse,ScopeCall.offer?]
    cases scope.find? name <;> rfl
  | lookup name span =>
    simp only [Scope.call,lookup,ScopeCall.offer?]
    cases scope.find? name <;> rfl
  | bindOrReuse | get | contains => rfl

theorem callAnswers (scope : Scope) (call : ScopeCall) (b : Binding)
    (answer : (scope.call call).1 = .bound b) : (scope.call call).2.find? call.name = some b := by
  cases call with
  | declare name type span =>
    cases found : scope.find? name with
    | none =>
      rw [callDeclared found] at answer ⊢
      cases answer
      simp [ScopeCall.name,found]
    | some first => simp [Scope.call,declare,found] at answer
  | lookup name span =>
    simp only [Scope.call,lookup,ScopeCall.name] at answer ⊢
    cases found : scope.find? name with
    | none => simp [found] at answer
    | some first => simpa [found] using answer
  | bindOrReuse name type span =>
    cases answer
    exact scope.bindOrReuseFind name type span
  | get | contains => cases answer

structure Reflects (calls : List ScopeCall) (scope : Scope) : Prop where
  names : scope.locals.map (·.name) = boundNames calls
  apart : (scope.locals.map (·.name)).Nodup
  first : ∀ entry ∈ scope.locals, firstOffer? calls entry.name = some entry

theorem findNone (scope : Scope) (name : String) :
    scope.find? name = none ↔ name ∉ scope.locals.map (·.name) := by
  rw [find?,findLocal?,findLocalFromNone]
  simp

namespace Reflects
variable {done : List ScopeCall} {scope : Scope} {entry : Local} {last : ScopeCall}

theorem empty : ({} : Scope).Reflects [] :=
  ⟨rfl,.nil,by simp⟩

theorem unbound (reflects : scope.Reflects done) {name : String} :
    scope.find? name = none ↔ name ∉ boundNames done := by
  rw [findNone,reflects.names]

theorem bound (reflects : scope.Reflects done) {name : String} :
    name ∈ boundNames done ↔ ∃ b, scope.find? name = some b := by
  rw [← Option.isSome_iff_exists,Option.isSome_iff_ne_none,Ne,reflects.unbound,Decidable.not_not]

theorem size (reflects : scope.Reflects done) : scope.size = (boundNames done).length := by
  rw [← reflects.names,List.length_map,Scope.size]

theorem reuse (reflects : scope.Reflects done) (asked : last.offer? = some entry)
    (known : entry.name ∈ boundNames done) : scope.Reflects (done ++ [last]) := by
  refine ⟨?_,reflects.apart,?_⟩
  · rw [boundNamesSnoc asked,if_pos known,reflects.names]
  · intro other member
    rw [firstOfferSnoc asked,reflects.first other member]
    rfl

theorem bind (reflects : scope.Reflects done) (asked : last.offer? = some entry)
    (fresh : entry.name ∉ boundNames done) :
    (scope.bind entry.name entry.type entry.span).2.Reflects (done ++ [last]) := by
  have names : (scope.bind entry.name entry.type entry.span).2.locals.map (·.name) =
      boundNames done ++ [entry.name] := by
    rw [← reflects.names]
    exact List.map_append
  refine ⟨?_,?_,?_⟩
  · rw [names,boundNamesSnoc asked,if_neg fresh]
  · rw [names]
    have apart := reflects.apart
    rw [reflects.names] at apart
    refine List.nodup_append.mpr ⟨apart,by simp,?_⟩
    rintro a old b new rfl
    exact fresh (List.mem_singleton.mp new ▸ old)
  · intro other member
    rcases List.mem_append.mp member with old | new
    · rw [firstOfferSnoc asked,reflects.first other old]
      rfl
    · -- no earlier call offered the name, so its first offer is the last call
      cases List.mem_singleton.mp new
      have none : firstOffer? done entry.name = none := by
        simpa using mt memBoundNames.mpr fresh
      rw [firstOfferSnoc asked,none,if_pos rfl]
      rfl

theorem called (reflects : scope.Reflects done) (call : ScopeCall) :
    (scope.call call).2.Reflects (done ++ [call]) := by
  rw [callLeaves]
  cases asked : call.offer? with
  | none =>
    refine ⟨?_,reflects.apart,?_⟩
    · rw [reflects.names,boundNames,boundNames,silentSnoc asked]
    · simp only [firstOffer?,silentSnoc asked]
      exact reflects.first
  | some entry =>
    simp only [bindOrReuse]
    cases found : scope.find? entry.name with
    | none => exact reflects.bind asked (reflects.unbound.mp found)
    | some b => exact reflects.reuse asked (reflects.bound.mpr ⟨b,found⟩)

theorem calls (reflects : scope.Reflects done) (more : List ScopeCall) :
    (scope.after more).Reflects (done ++ more) := by
  induction more generalizing scope done with
  | nil =>
    rw [List.append_nil]
    exact reflects
  | cons call more ih =>
    rw [List.append_cons]
    exact ih (reflects.called call)

theorem bySlot (reflects : scope.Reflects done) (slot : Nat) (entry : Local) :
    scope.locals[slot]? = some entry ↔ scope.find? entry.name = some ⟨slot,entry⟩ := by
  constructor
  · intro held
    have named : (scope.locals.map (·.name))[slot]? = some entry.name := by simp [held]
    cases found : scope.find? entry.name with
    | none => exact absurd (List.mem_of_getElem? named) ((scope.findNone _).mp found)
    | some b =>
      obtain ⟨position,same⟩ := findLocalSound found
      have also : (scope.locals.map (·.name))[b.slot]? = some entry.name := by
        simp [position,same]
      have slots : slot = b.slot := by
        obtain ⟨below,here⟩ := List.getElem?_eq_some_iff.mp named
        obtain ⟨under,there⟩ := List.getElem?_eq_some_iff.mp also
        exact (List.getElem_inj reflects.apart).mp (here.trans there.symm)
      subst slots
      cases position.symm.trans held
      rfl
  · intro found
    exact (findLocalSound found).1

theorem find (reflects : scope.Reflects done) (name : String) :
    scope.find? name =
      (firstOffer? done name).map fun entry => ⟨(boundNames done).idxOf name,entry⟩ := by
  cases found : scope.find? name with
  | none =>
    have none : firstOffer? done name = none := by
      simpa using mt memBoundNames.mpr (reflects.unbound.mp found)
    rw [none]
    rfl
  | some b =>
    obtain ⟨position,rfl⟩ := findLocalSound found
    have first := reflects.first b.entry (List.mem_of_getElem? position)
    have named : (boundNames done)[b.slot]? = some b.entry.name := by
      simp [← reflects.names,position]
    obtain ⟨below,here⟩ := List.getElem?_eq_some_iff.mp named
    have index : (boundNames done).idxOf b.entry.name = b.slot := by
      have apart := reflects.apart
      rw [reflects.names] at apart
      rw [← here]
      exact apart.idxOf_getElem b.slot below
    rw [first,index]
    rfl

end Reflects

theorem afterReflects (calls : List ScopeCall) : (({} : Scope).after calls).Reflects calls :=
  Reflects.empty.calls calls

theorem afterGrows (scope : Scope) (calls : List ScopeCall) :
    scope.locals <+: (scope.after calls).locals := by
  induction calls generalizing scope with
  | nil => exact List.prefix_refl _
  | cons call calls ih =>
    refine List.IsPrefix.trans ?_ (ih (scope.call call).2)
    rw [callLeaves]
    split
    · exact scope.bindOrReuseGrows _ _ _
    · exact List.prefix_refl _

end Scope
end ScriptMachine
