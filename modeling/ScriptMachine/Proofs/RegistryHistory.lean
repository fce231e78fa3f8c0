import ScriptMachine.Property.Registry
/-! Registries by their history. A registry compares nothing but the hashes of names.
What it holds of each hash is the first property with an accessor that was offered
under it; as long as no two of the names at hand share a hash without being the same
up to the case of their letters, hashes may be read as names. -/
namespace ScriptMachine

inductive RegistryCall where
  | register (p : Property)
  | registerBuiltins
  deriving DecidableEq, Repr

def RegistryCall.offers : RegistryCall → List Property
  | register p => [p]
  | registerBuiltins => Property.builtins

def offered (history : List RegistryCall) : List Property :=
  history.flatMap (·.offers)

def offeredNames (history : List RegistryCall) : List String :=
  (offered history).map (·.name)

def firstOffered? (offers : List Property) (name : String) : Option Property :=
  offers.find? fun p => p.hasAccessor && Text.sameFolded p.name name

def foldedNames (offers : List Property) : List String :=
  ((offers.filter (·.hasAccessor)).map fun p => Text.fold p.name).eraseDups

def NoCollision (names : List String) : Prop :=
  ∀ a ∈ names, ∀ b ∈ names, PropertyId.ofName a = PropertyId.ofName b → Text.fold a = Text.fold b

instance (names : List String) : Decidable (NoCollision names) :=
  inferInstanceAs (Decidable (∀ a ∈ names, ∀ b ∈ names, _))

section Names
variable {names : List String} {a b : String}

theorem NoCollision.sub {more : List String} (apart : NoCollision more) (within : names ⊆ more) :
    NoCollision names :=
  fun a left b right => apart a (within left) b (within right)

theorem NoCollision.sameId (apart : NoCollision names) (left : a ∈ names) (right : b ∈ names) :
    (PropertyId.ofName a == PropertyId.ofName b) = Text.sameFolded a b := by
  rw [Text.sameFolded,Bool.eq_iff_iff,beq_iff_eq,beq_iff_eq]
  refine ⟨apart a left b right,?_⟩
  intro same
  rw [PropertyId.ofName,PropertyId.ofName,same]

end Names

section Offers
variable {offers : List Property} {p : Property} {name : String}

theorem memFoldedNames :
    Text.fold name ∈ foldedNames offers ↔ (firstOffered? offers name).isSome = true := by
  rw [foldedNames,List.mem_eraseDups,firstOffered?,List.find?_isSome]
  simp only [List.mem_map,List.mem_filter,Bool.and_eq_true,Text.sameFolded,beq_iff_eq,and_assoc]

theorem foldedNamesSnoc (offers : List Property) (p : Property) :
    foldedNames (offers ++ [p]) =
      if p.hasAccessor = true ∧ Text.fold p.name ∉ foldedNames offers then
        foldedNames offers ++ [Text.fold p.name]
      else foldedNames offers := by
  cases usable : p.hasAccessor with
  | false => simp [foldedNames,usable]
  | true =>
    simp only [foldedNames,List.filter_append,List.filter_cons,usable,if_true,List.filter_nil,
      List.map_append,List.map_cons,List.map_nil,List.eraseDups_append,List.mem_eraseDups,true_and]
    split
    · rename_i fresh
      simp [List.removeAll,fresh,List.eraseDups_cons]
    · rename_i known
      simp [List.removeAll,Decidable.not_not.mp known]

theorem firstOfferedById (apart : NoCollision (name :: offers.map (·.name))) :
    (offers.find? fun p => p.hasAccessor && p.id == PropertyId.ofName name) =
      firstOffered? offers name := by
  rw [firstOffered?,← List.head?_filter,← List.head?_filter]
  refine congrArg List.head? (List.filter_congr ?_)
  intro p member
  have known : p.name ∈ name :: offers.map (·.name) :=
    List.mem_cons_of_mem _ (List.mem_map_of_mem member)
  rw [Property.id,apart.sameId known List.mem_cons_self]

end Offers

namespace Registry

def offer (registry : Registry) (p : Property) : Registry :=
  match registry.register p with
  | .ok grown => grown
  | .error _ => registry

theorem registerAllCons (registry : Registry) (p : Property) (offers : List Property) :
    registry.registerAll (p :: offers) = (registry.offer p).registerAll offers :=
  rfl

theorem registerAllAppend (registry : Registry) (offers more : List Property) :
    registry.registerAll (offers ++ more) = (registry.registerAll offers).registerAll more :=
  List.foldl_append

def call (registry : Registry) : RegistryCall → Except RegistryError Unit × Registry
  | .register p =>
    match registry.register p with
    | .ok grown => (.ok (),grown)
    | .error e => (.error e,registry)
  | .registerBuiltins => (.ok (),registry.registerAll Property.builtins)

def after (registry : Registry) (history : List RegistryCall) : Registry :=
  history.foldl (fun registry call => (registry.call call).2) registry

theorem callLeaves (registry : Registry) (call : RegistryCall) :
    (registry.call call).2 = registry.registerAll call.offers := by
  cases call with
  | register p =>
    rw [RegistryCall.offers,registerAllCons,offer,Registry.call]
    cases registry.register p <;> rfl
  | registerBuiltins => rfl

theorem afterOffers (registry : Registry) (history : List RegistryCall) :
    registry.after history = registry.registerAll (offered history) := by
  induction history generalizing registry with
  | nil => rfl
  | cons call history ih =>
    change (registry.call call).2.after history = _
    rw [ih,callLeaves,← registerAllAppend]
    rfl

theorem offerCases (registry : Registry) (p : Property) :
    registry.offer p =
      if p.hasAccessor = true ∧ registry.contains p.name = false then ⟨registry.properties ++ [p]⟩
      else registry := by
  unfold offer register
  cases p.hasAccessor with
  | false => rfl
  | true => cases registry.contains p.name <;> rfl

theorem findSameId (registry : Registry) {a b : String}
    (same : PropertyId.ofName a = PropertyId.ofName b) : registry.find? a = registry.find? b := by
  rw [find?,find?,same]

theorem findOffer (registry : Registry) (p : Property) (name : String) :
    (registry.offer p).find? name =
      (registry.find? name).or
        (if p.hasAccessor && p.id == PropertyId.ofName name then some p else none) := by
  rw [offerCases]
  split
  · rename_i taken
    simp only [find?,List.find?_append,List.find?_singleton,taken.1,Bool.true_and]
  · rename_i left
    split
    · rename_i answers
      simp only [Bool.and_eq_true,beq_iff_eq] at answers
      have known : registry.contains p.name = true := by
        simpa [answers.1] using left
      rw [contains,registry.findSameId answers.2,Option.isSome_iff_exists] at known
      obtain ⟨first,found⟩ := known
      rw [found]
      rfl
    · rw [Option.or_none]

theorem findAll (registry : Registry) (offers : List Property) (name : String) :
    (registry.registerAll offers).find? name =
      (registry.find? name).or
        (offers.find? fun p => p.hasAccessor && p.id == PropertyId.ofName name) := by
  induction offers generalizing registry with
  | nil => exact (Option.or_none).symm
  | cons p offers ih =>
    rw [registerAllCons,ih,findOffer,Option.or_assoc,List.find?_cons]
    cases p.hasAccessor && p.id == PropertyId.ofName name <;> rfl

theorem findKept {registry : Registry} {name : String} {p : Property}
    (found : registry.find? name = some p) (offers : List Property) :
    (registry.registerAll offers).find? name = some p := by
  rw [findAll,found]
  rfl

theorem foundFirst {offers : List Property} {name : String}
    (apart : NoCollision (name :: offers.map (·.name))) :
    (({} : Registry).registerAll offers).find? name = firstOffered? offers name := by
  rw [findAll,firstOfferedById apart]
  rfl

theorem containsFolded {offers : List Property} {name : String}
    (apart : NoCollision (name :: offers.map (·.name))) :
    (({} : Registry).registerAll offers).contains name = true ↔
      Text.fold name ∈ foldedNames offers := by
  rw [contains,foundFirst apart,memFoldedNames]

def filedNames (registry : Registry) : List String :=
  registry.properties.map fun p => Text.fold p.name

theorem filedOffer {offers : List Property} {p : Property}
    (apart : NoCollision (p.name :: offers.map (·.name)))
    (filed : (({} : Registry).registerAll offers).filedNames = foldedNames offers) :
    (({} : Registry).registerAll (offers ++ [p])).filedNames = foldedNames (offers ++ [p]) := by
  have free : (({} : Registry).registerAll offers).contains p.name = false ↔
      Text.fold p.name ∉ foldedNames offers := by
    rw [← containsFolded apart,Bool.not_eq_true]
  rw [registerAllAppend]
  change ((({} : Registry).registerAll offers).offer p).filedNames = _
  simp only [offerCases,foldedNamesSnoc,← free]
  split
  · rw [filedNames,List.map_append,← filed]
    rfl
  · exact filed

theorem filedAll (done more : List Property)
    (apart : NoCollision ((done ++ more).map (·.name)))
    (filed : (({} : Registry).registerAll done).filedNames = foldedNames done) :
    (({} : Registry).registerAll (done ++ more)).filedNames = foldedNames (done ++ more) := by
  induction more generalizing done with
  | nil =>
    rw [List.append_nil]
    exact filed
  | cons p more ih =>
    rw [List.append_cons] at apart ⊢
    refine ih (done ++ [p]) apart (filedOffer (apart.sub ?_) filed)
    simp only [List.map_append,List.map_cons,List.map_nil,List.cons_subset,List.mem_append,
      List.mem_cons,true_or,or_true,true_and]
    intro name member
    exact List.mem_append_left _ (List.mem_append_left _ member)

theorem registerApart {offers : List Property} (apart : (offers.map (·.id)).Nodup)
    (usable : ∀ p ∈ offers, p.hasAccessor = true) (registry : Registry) :
    (registry.registerAll offers).properties =
      registry.properties ++ offers.filter fun p => !registry.contains p.name := by
  induction offers generalizing registry with
  | nil => exact (List.append_nil _).symm
  | cons p offers ih =>
    simp only [List.map_cons,List.nodup_cons,List.mem_cons,forall_eq_or_imp] at apart usable
    have others : ∀ q ∈ offers, (registry.offer p).contains q.name = registry.contains q.name := by
      intro q member
      have different : (p.id == PropertyId.ofName q.name) = false := by
        rw [beq_eq_false_iff_ne]
        intro same
        exact apart.1 (List.mem_map.mpr ⟨q,member,same.symm⟩)
      rw [contains,findOffer,different,Bool.and_false,contains]
      simp
    have filtered : (offers.filter fun q => !(registry.offer p).contains q.name) =
        offers.filter fun q => !registry.contains q.name := by
      refine List.filter_congr ?_
      intro q member
      rw [others q member]
    rw [registerAllCons,ih apart.2 usable.2,filtered,offerCases]
    cases taken : registry.contains p.name with
    | true => simp [taken]
    | false => simp [taken,usable.1]

theorem registerTwice {offers : List Property} (apart : (offers.map (·.id)).Nodup)
    (usable : ∀ p ∈ offers, p.hasAccessor = true) (registry : Registry) :
    (registry.registerAll offers).registerAll offers = registry.registerAll offers := by
  have known : ∀ p ∈ offers, (registry.registerAll offers).contains p.name = true := by
    intro p member
    rw [contains,findAll,Option.isSome_or,Bool.or_eq_true,List.find?_isSome]
    refine .inr ⟨p,member,?_⟩
    rw [usable p member,Property.id,beq_self_eq_true]
    rfl
  have none : (offers.filter fun p => !(registry.registerAll offers).contains p.name) = [] := by
    refine List.filter_eq_nil_iff.mpr ?_
    intro p member
    simp [known p member]
  have same := registerApart apart usable (registry.registerAll offers)
  rw [none,List.append_nil] at same
  exact congrArg Registry.mk same

theorem builtinsApart : (Property.builtins.map (·.id)).Nodup := by
  decide +kernel

theorem builtinsUsable : ∀ p ∈ Property.builtins, p.hasAccessor = true := by
  decide

structure KeepsFirst (history : List RegistryCall) (registry : Registry) : Prop where
  found : ∀ name, NoCollision (name :: offeredNames history) →
    registry.find? name = firstOffered? (offered history) name
  size : NoCollision (offeredNames history) →
    registry.size = (foldedNames (offered history)).length
  registers : ∀ p, NoCollision (p.name :: offeredNames history) →
    registry.call (.register p) =
      if p.hasAccessor = false then (.error (.noAccessors p.name),registry)
      else if Text.fold p.name ∈ foldedNames (offered history) then
        (.error (.duplicate p.name),registry)
      else (.ok (),⟨registry.properties ++ [p]⟩)
  keeps : ∀ name p, registry.find? name = some p →
    (registry.call .registerBuiltins).2.find? name = some p
  adds : NoCollision (Property.builtins.map (·.name) ++ offeredNames history) →
    (registry.call .registerBuiltins).2.properties = registry.properties ++
      Property.builtins.filter fun p => Text.fold p.name ∉ foldedNames (offered history)
  repeats : ((registry.call .registerBuiltins).2.call .registerBuiltins).2 =
    (registry.call .registerBuiltins).2

theorem registerFolded {offers : List Property} {p : Property}
    (apart : NoCollision (p.name :: offers.map (·.name))) :
    (({} : Registry).registerAll offers).call (.register p) =
      if p.hasAccessor = false then
        (.error (.noAccessors p.name),({} : Registry).registerAll offers)
      else if Text.fold p.name ∈ foldedNames offers then
        (.error (.duplicate p.name),({} : Registry).registerAll offers)
      else (.ok (),⟨(({} : Registry).registerAll offers).properties ++ [p]⟩) := by
  simp only [call,register,← containsFolded apart]
  cases p.hasAccessor with
  | false => rfl
  | true => cases (({} : Registry).registerAll offers).contains p.name <;> rfl

theorem builtinsAdded {offers : List Property}
    (apart : NoCollision (Property.builtins.map (·.name) ++ offers.map (·.name))) :
    ((({} : Registry).registerAll offers).registerAll Property.builtins).properties =
      (({} : Registry).registerAll offers).properties ++
        Property.builtins.filter fun p => Text.fold p.name ∉ foldedNames offers := by
  rw [registerApart builtinsApart builtinsUsable]
  refine congrArg (_ ++ ·) (List.filter_congr ?_)
  intro p member
  have name : p.name ∈ Property.builtins.map (·.name) := List.mem_map_of_mem member
  have known : (({} : Registry).registerAll offers).contains p.name = true ↔
      Text.fold p.name ∈ foldedNames offers :=
    containsFolded (apart.sub
      (List.cons_subset.mpr ⟨List.mem_append_left _ name,List.subset_append_right _ _⟩))
  rw [Bool.eq_iff_iff,Bool.not_eq_true',decide_eq_true_iff,← known,Bool.not_eq_true]

theorem keepsFirst (history : List RegistryCall) :
    (({} : Registry).registerAll (offered history)).KeepsFirst history where
  found name apart := foundFirst apart
  size apart := by
    have filed := filedAll [] (offered history) apart rfl
    rw [List.nil_append] at filed
    rw [← filed,filedNames,List.length_map,size]
  registers p apart := registerFolded apart
  keeps name p found := by
    rw [callLeaves]
    exact findKept found _
  adds apart := by
    rw [callLeaves]
    exact builtinsAdded apart
  repeats := by
    rw [callLeaves,callLeaves]
    exact registerTwice builtinsApart builtinsUsable _

end Registry

theorem registryIsFirstWins (history : List RegistryCall) :
    (({} : Registry).after history).KeepsFirst history ∧
    (Registry.withBuiltins.after history).KeepsFirst (.registerBuiltins :: history) := by
  constructor
  · rw [Registry.afterOffers]
    exact Registry.keepsFirst history
  · rw [Registry.withBuiltins,Registry.afterOffers,← Registry.registerAllAppend]
    exact Registry.keepsFirst (.registerBuiltins :: history)

def mixedRegistrations : List RegistryCall :=
  [.register ⟨"Answer",none,none⟩,.register ⟨"Answer",some (.host 0 0),none⟩,
    .register ⟨"ANSWER",some (.host 1 0),none⟩,.register ⟨"errorLevel",some (.host 2 0),none⟩,
    .registerBuiltins]

theorem mixedRegistrationsKeepFirst :
    NoCollision ("aNSWER" :: offeredNames mixedRegistrations) ∧
    (({} : Registry).after mixedRegistrations).find? "aNSWER" =
      some ⟨"Answer",some (.host 0 0),none⟩ ∧
    (({} : Registry).after mixedRegistrations).size = 7 := by
  have apart : NoCollision ("aNSWER" :: offeredNames mixedRegistrations) := by decide +kernel
  obtain ⟨keeps,_⟩ := registryIsFirstWins mixedRegistrations
  refine ⟨apart,(keeps.found _ apart).trans (by decide +kernel),?_⟩
  exact (keeps.size (apart.sub (List.subset_cons_self _ _))).trans (by decide +kernel)

end ScriptMachine
