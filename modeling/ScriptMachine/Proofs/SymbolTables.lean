import ScriptMachine.Compile.SymbolTable
import ScriptMachine.Proofs.ScopeHistory
/-! A symbol table and the scope with the same history. Whatever the hash, the two
answer every call alike, the slots of the table being those of the scope in 32 bits,
and sorting the table gives the locals of the scope. So a table tells of each name what
the first call that bound it said, until its counter comes round. -/
namespace ScriptMachine

def Binding.slotted (b : Binding) : LocalSlot :=
  ⟨b.entry.name,.ofNat b.slot,b.entry.type,b.entry.span⟩

theorem Binding.slottedSlot {b : Binding} (few : b.slot < UInt32.size) :
    b.slotted.slot.toNat = b.slot := by
  simp only [slotted,UInt32.toNat_ofNat']
  exact Nat.mod_eq_of_lt few

def slotted (locals : List Local) : List LocalSlot :=
  locals.mapIdx fun slot entry => Binding.slotted ⟨slot,entry⟩

theorem slottedSnoc (locals : List Local) (entry : Local) :
    slotted (locals ++ [entry]) = slotted locals ++ [Binding.slotted ⟨locals.length,entry⟩] := by
  simp [slotted,List.mapIdx_append]

theorem slottedAt {locals : List Local} {n : Nat} {known : LocalSlot} :
    (slotted locals)[n]? = some known ↔
      ∃ entry, locals[n]? = some entry ∧ Binding.slotted ⟨n,entry⟩ = known := by
  rw [slotted,List.getElem?_mapIdx,Option.map_eq_some_iff]

theorem memSlotted {locals : List Local} {known : LocalSlot} :
    known ∈ slotted locals ↔
      ∃ (n : Nat) (entry : Local), locals[n]? = some entry ∧ Binding.slotted ⟨n,entry⟩ = known := by
  simp only [List.mem_iff_getElem?,slottedAt]

theorem slottedNames (locals : List Local) :
    (slotted locals).map (·.name) = locals.map (·.name) := by
  apply List.ext_getElem?
  intro n
  simp [slotted,Binding.slotted,Function.comp_def]

namespace SymbolTable
variable {hash : String → Nat} {table : SymbolTable hash} {scope : Scope}

def call (table : SymbolTable hash) : ScopeCall → ScopeAnswer LocalSlot × SymbolTable hash
  | .declare name type span =>
    match table.declare name type span with
    | .ok (entry,next) => (.bound entry,next)
    | .error e => (.refused e,table)
  | .lookup name span =>
    match table.lookup name span with
    | .ok entry => (.bound entry,table)
    | .error e => (.refused e,table)
  | .bindOrReuse name type span =>
    let (entry,next) := table.declareOrReuse name type span
    (.bound entry,next)
  | .get name => (.found (table.get? name),table)
  | .contains name => (.told (table.contains name),table)

def after (table : SymbolTable hash) (calls : List ScopeCall) : SymbolTable hash :=
  calls.foldl (fun table call => (table.call call).2) table

structure Tabulates (table : SymbolTable hash) (scope : Scope) : Prop where
  values : table.entries.values.Perm (slotted scope.locals)
  counter : table.nextSlot = .ofNat scope.size

namespace Tabulates

theorem empty : ({} : SymbolTable hash).Tabulates {} :=
  ⟨.refl _,rfl⟩

theorem get (tabulates : table.Tabulates scope) (name : String) :
    table.get? name = (scope.find? name).map (·.slotted) := by
  cases found : scope.find? name with
  | some b =>
    obtain ⟨position,same⟩ := findLocalSound found
    refine table.entries.findSome.mpr ⟨tabulates.values.mem_iff.mpr ?_,same⟩
    exact memSlotted.mpr ⟨b.slot,b.entry,position,rfl⟩
  | none =>
    refine table.entries.findNone.mpr ?_
    intro known member
    obtain ⟨n,entry,position,rfl⟩ := memSlotted.mp (tabulates.values.mem_iff.mp member)
    exact findLocalFromNone.mp found entry (List.mem_of_getElem? position)

theorem contains (tabulates : table.Tabulates scope) (name : String) :
    table.contains name = scope.contains name := by
  have got := tabulates.get name
  unfold get? at got
  rw [SymbolTable.contains,got,Option.isSome_map,Scope.contains]

theorem bind (tabulates : table.Tabulates scope) {name : String}
    (free : scope.find? name = none) (type : StaticType) (span : Span) :
    (table.bind name type span).1 = (scope.bind name type span).1.slotted ∧
      (table.bind name type span).2.Tabulates (scope.bind name type span).2 := by
  have unknown : table.entries.find? name = none := by
    have got := tabulates.get name
    rwa [free] at got
  obtain ⟨given,values⟩ := NameMap.orInsertFree ⟨name,table.nextSlot,type,span⟩ unknown
  have next : (⟨name,table.nextSlot,type,span⟩ : LocalSlot) =
      (scope.bind name type span).1.slotted := by
    rw [tabulates.counter]
    rfl
  refine ⟨given.trans next,?_,?_⟩
  · refine values.trans ?_
    rw [next]
    refine (tabulates.values.cons _).trans ?_
    simp only [Scope.bind,slottedSnoc]
    exact (List.perm_append_singleton _ _).symm
  · change table.nextSlot + 1 = _
    rw [tabulates.counter]
    simp [UInt32.ofNat_add]

theorem reuse (tabulates : table.Tabulates scope) (name : String) (type : StaticType)
    (span : Span) :
    (table.declareOrReuse name type span).1 = (scope.bindOrReuse name type span).1.slotted ∧
      (table.declareOrReuse name type span).2.Tabulates (scope.bindOrReuse name type span).2 := by
  unfold declareOrReuse Scope.bindOrReuse
  rw [tabulates.get]
  cases found : scope.find? name with
  | some b => exact ⟨rfl,tabulates⟩
  | none => exact tabulates.bind found type span

theorem called (tabulates : table.Tabulates scope) (call : ScopeCall) :
    (table.call call).1 = (scope.call call).1.map (·.slotted) ∧
      (table.call call).2.Tabulates (scope.call call).2 := by
  cases call with
  | declare name type span =>
    simp only [SymbolTable.call,declare,tabulates.get,Scope.call,Scope.declare]
    cases found : scope.find? name with
    | some b => exact ⟨rfl,tabulates⟩
    | none =>
      obtain ⟨same,kept⟩ := tabulates.bind found type span
      exact ⟨congrArg ScopeAnswer.bound same,kept⟩
  | lookup name span =>
    simp only [SymbolTable.call,lookup,tabulates.get,Scope.call,Scope.lookup]
    cases scope.find? name <;> exact ⟨rfl,tabulates⟩
  | bindOrReuse name type span =>
    obtain ⟨same,kept⟩ := tabulates.reuse name type span
    exact ⟨congrArg ScopeAnswer.bound same,kept⟩
  | get name => exact ⟨congrArg ScopeAnswer.found (tabulates.get name),tabulates⟩
  | contains name => exact ⟨congrArg ScopeAnswer.told (tabulates.contains name),tabulates⟩

theorem calls (tabulates : table.Tabulates scope) (calls : List ScopeCall) :
    (table.after calls).Tabulates (scope.after calls) := by
  induction calls generalizing table scope with
  | nil => exact tabulates
  | cons call calls ih => exact ih (tabulates.called call).2

theorem size (tabulates : table.Tabulates scope) : table.size = scope.size := by
  have counted := tabulates.values.length_eq
  rwa [slotted,List.length_mapIdx] at counted

theorem frame (tabulates : table.Tabulates scope) (few : scope.size < UInt32.size) :
    table.frameSize.toNat = scope.size := by
  rw [frameSize,tabulates.counter,UInt32.toNat_ofNat']
  exact Nat.mod_eq_of_lt few

/-- Slots below 2³² are told apart, so the values have only one order by slot. -/
theorem sorted (tabulates : table.Tabulates scope) (few : scope.size < UInt32.size) :
    table.intoLocals = slotted scope.locals := by
  have slotAt {n : Nat} {known : LocalSlot} (there : (slotted scope.locals)[n]? = some known) :
      known.slot.toNat = n := by
    obtain ⟨entry,position,rfl⟩ := slottedAt.mp there
    exact Binding.slottedSlot (Nat.lt_trans (List.getElem?_eq_some_iff.mp position).1 few)
  have same := (List.mergeSort_perm table.entries.values fun a b => a.slot ≤ b.slot).trans
    tabulates.values
  have ordered : table.intoLocals.Pairwise fun a b => decide (a.slot ≤ b.slot) = true := by
    refine List.pairwise_mergeSort ?_ ?_ _
    · intro a b c first second
      simp only [decide_eq_true_eq] at first second ⊢
      exact UInt32.le_trans first second
    · intro a b
      simp only [Bool.or_eq_true,decide_eq_true_eq]
      exact UInt32.le_total a.slot b.slot
  have inOrder : (slotted scope.locals).Pairwise fun a b => decide (a.slot ≤ b.slot) = true := by
    refine List.pairwise_iff_getElem.mpr ?_
    intro n k below under less
    have first := slotAt (List.getElem?_eq_getElem below)
    have second := slotAt (List.getElem?_eq_getElem under)
    simp only [decide_eq_true_eq,UInt32.le_iff_toNat_le]
    omega
  refine same.eq_of_pairwise ?_ ordered inOrder
  intro a b one two below above
  obtain ⟨n,first⟩ := List.mem_iff_getElem?.mp (same.mem_iff.mp one)
  obtain ⟨k,second⟩ := List.mem_iff_getElem?.mp two
  have slots : a.slot = b.slot := by
    simp only [decide_eq_true_eq] at below above
    exact UInt32.le_antisymm below above
  rw [← slotAt first,slots,slotAt second,second] at first
  exact (Option.some.inj first).symm

end Tabulates

structure FirstWins (calls : List ScopeCall) (table : SymbolTable hash) : Prop where
  size : table.size = (boundNames calls).length
  frame : table.frameSize.toNat = table.size
  empty : table.isEmpty = true ↔ boundNames calls = []
  known : ∀ name, table.contains name = true ↔ name ∈ boundNames calls
  found : ∀ name, table.get? name = (firstOffer? calls name).map fun entry =>
    ⟨name,.ofNat ((boundNames calls).idxOf name),entry.type,entry.span⟩
  kept : ∀ more name entry, table.get? name = some entry →
    (table.after more).get? name = some entry
  dense : ∀ slot, slot < table.frameSize ↔
    ∃ name entry, table.get? name = some entry ∧ entry.slot = slot
  apart : ∀ name other entry same, table.get? name = some entry → table.get? other = some same →
    entry.slot = same.slot → name = other
  declareFails : ∀ name type span,
    (∃ e, (table.call (.declare name type span)).1 = .refused e) ↔ name ∈ boundNames calls
  declareTells : ∀ name type span first, firstOffer? calls name = some first →
    table.call (.declare name type span) =
      (.refused (.duplicateDeclaration name first.span span),table)
  lookupFails : ∀ name span,
    (∃ e, (table.call (.lookup name span)).1 = .refused e) ↔ name ∉ boundNames calls
  lookupTells : ∀ name span, firstOffer? calls name = none →
    table.call (.lookup name span) = (.refused (.undefinedVariable name span),table)
  answered : ∀ call entry, (table.call call).1 = .bound entry →
    (table.call call).2.get? call.name = some entry
  locals : table.intoLocals.map (·.name) = boundNames calls
  position : ∀ (n : Nat) entry, table.intoLocals[n]? = some entry ↔
    table.get? entry.name = some entry ∧ entry.slot.toNat = n

namespace Tabulates
variable {calls : List ScopeCall}

theorem found (tabulates : table.Tabulates scope) {name : String} {entry : LocalSlot} :
    table.get? name = some entry ↔ ∃ b, scope.find? name = some b ∧ b.slotted = entry := by
  rw [tabulates.get,Option.map_eq_some_iff]

theorem foundSlot (few : scope.size < UInt32.size) {name : String} {b : Binding}
    (found : scope.find? name = some b) : b.slotted.slot.toNat = b.slot :=
  Binding.slottedSlot
    (Nat.lt_trans (List.getElem?_eq_some_iff.mp (findLocalSound found).1).1 few)

theorem firstFound (tabulates : table.Tabulates scope) (reflects : scope.Reflects calls)
    (name : String) : table.get? name = (firstOffer? calls name).map fun entry =>
      ⟨name,.ofNat ((boundNames calls).idxOf name),entry.type,entry.span⟩ := by
  rw [tabulates.get,reflects.find]
  cases offered : firstOffer? calls name with
  | none => rfl
  | some entry =>
    have named : entry.name = name := by simpa using List.find?_some offered
    simp only [Option.map_some,Binding.slotted,named]

theorem slotGiven (tabulates : table.Tabulates scope) (reflects : scope.Reflects calls)
    (few : scope.size < UInt32.size) (slot : UInt32) :
    slot < table.frameSize ↔ ∃ name entry, table.get? name = some entry ∧ entry.slot = slot := by
  rw [UInt32.lt_iff_toNat_lt,tabulates.frame few]
  constructor
  · intro below
    have found := (reflects.bySlot slot.toNat _).mp (List.getElem?_eq_getElem below)
    exact ⟨_,_,tabulates.found.mpr ⟨_,found,rfl⟩,UInt32.ofNat_toNat⟩
  · rintro ⟨name,entry,known,rfl⟩
    obtain ⟨b,found,rfl⟩ := tabulates.found.mp known
    rw [foundSlot few found]
    exact (List.getElem?_eq_some_iff.mp (findLocalSound found).1).1

theorem sameSlot (tabulates : table.Tabulates scope) (few : scope.size < UInt32.size)
    {name other : String} {entry same : LocalSlot} (one : table.get? name = some entry)
    (two : table.get? other = some same) (slots : entry.slot = same.slot) : name = other := by
  obtain ⟨b,found,rfl⟩ := tabulates.found.mp one
  obtain ⟨c,also,rfl⟩ := tabulates.found.mp two
  have spots : b.slot = c.slot := by rw [← foundSlot few found,slots,foundSlot few also]
  obtain ⟨position,rfl⟩ := findLocalSound found
  obtain ⟨held,rfl⟩ := findLocalSound also
  rw [spots,held] at position
  rw [Option.some.inj position]

theorem localAt (tabulates : table.Tabulates scope) (reflects : scope.Reflects calls)
    (few : scope.size < UInt32.size) (n : Nat) (entry : LocalSlot) :
    table.intoLocals[n]? = some entry ↔
      table.get? entry.name = some entry ∧ entry.slot.toNat = n := by
  rw [tabulates.sorted few,slottedAt,tabulates.found]
  constructor
  · rintro ⟨known,position,rfl⟩
    have found := (reflects.bySlot n known).mp position
    exact ⟨⟨_,found,rfl⟩,foundSlot few found⟩
  · rintro ⟨⟨b,found,rfl⟩,rfl⟩
    rw [foundSlot few found]
    exact ⟨b.entry,(findLocalSound found).1,rfl⟩

theorem firstWins (tabulates : table.Tabulates scope) (reflects : scope.Reflects calls)
    (few : scope.size < UInt32.size) : table.FirstWins calls where
  size := tabulates.size.trans reflects.size
  frame := (tabulates.frame few).trans tabulates.size.symm
  empty := by
    rw [← List.length_eq_zero_iff,← reflects.size,← tabulates.size,isEmpty,beq_iff_eq]
    rfl
  known name := by
    rw [tabulates.contains,reflects.bound,Scope.contains,Option.isSome_iff_exists]
  found := tabulates.firstFound reflects
  kept more name entry known := by
    obtain ⟨b,found,rfl⟩ := tabulates.found.mp known
    exact (tabulates.calls more).found.mpr ⟨b,Scope.findGrown (scope.afterGrows more) found,rfl⟩
  dense := tabulates.slotGiven reflects few
  apart name other entry same := tabulates.sameSlot few
  declareFails name type span := by
    rw [reflects.bound]
    simp only [call,declare,tabulates.get]
    cases scope.find? name <;> simp
  declareTells name type span first asked := by
    simp only [call,declare,tabulates.firstFound reflects,asked,Option.map_some]
  lookupFails name span := by
    rw [← reflects.unbound]
    simp only [call,lookup,tabulates.get]
    cases scope.find? name <;> simp
  lookupTells name span unasked := by
    simp only [call,lookup,tabulates.firstFound reflects,unasked,Option.map_none]
  answered call entry answer := by
    obtain ⟨same,kept⟩ := tabulates.called call
    rw [same] at answer
    cases told : (scope.call call).1 with
    | bound b =>
      rw [told] at answer
      cases answer
      exact kept.found.mpr ⟨b,scope.callAnswers call b told,rfl⟩
    | refused | found | told =>
      rw [told] at answer
      cases answer
  locals := by
    rw [tabulates.sorted few,slottedNames,reflects.names]
  position := tabulates.localAt reflects few

end Tabulates
end SymbolTable
end ScriptMachine
