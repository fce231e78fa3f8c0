import ScriptMachine.Compile.Scope
/-! Symbol tables: a hash map from names to slots, and a counter of the slots given
away so far. The hash of a name decides which bucket of the map its entry is in. That
shows only in the order of the values, and the locals of a method are sorted. -/
namespace ScriptMachine

structure LocalSlot where
  name : String
  slot : UInt32
  type : StaticType
  span : Span
  deriving DecidableEq, Repr

def Filed (hash : String → Nat) (buckets : List (List LocalSlot)) : Prop :=
  ∀ n bucket, buckets[n]? = some bucket → ∀ entry ∈ bucket, hash entry.name % buckets.length = n

def fileEntry (hash : String → Nat) (entry : LocalSlot) (buckets : List (List LocalSlot)) :
    List (List LocalSlot) :=
  buckets.modify (hash entry.name % buckets.length) (entry :: ·)

def refile (hash : String → Nat) (count : Nat) (entries : List LocalSlot) :
    List (List LocalSlot) :=
  entries.foldr (fileEntry hash) (List.replicate count [])

section Filing
variable {hash : String → Nat} {entry : LocalSlot} {buckets : List (List LocalSlot)} {count : Nat}

@[simp] theorem fileEntryLength : (fileEntry hash entry buckets).length = buckets.length :=
  List.length_modify ..

@[simp] theorem refileLength (entries : List LocalSlot) :
    (refile hash count entries).length = count := by
  induction entries with
  | nil => exact List.length_replicate
  | cons entry rest ih => exact fileEntryLength.trans ih

theorem Filed.empty (count : Nat) : Filed hash (List.replicate count []) := by
  intro n bucket found entry member
  rw [List.getElem?_replicate] at found
  split at found <;> cases found
  cases member

theorem Filed.file (filed : Filed hash buckets) : Filed hash (fileEntry hash entry buckets) := by
  intro n bucket found other member
  rw [fileEntryLength]
  rw [fileEntry,List.getElem?_modify] at found
  obtain ⟨old,there,rfl⟩ := Option.map_eq_some_iff.mp found
  split at member
  · rename_i here
    rcases List.mem_cons.mp member with rfl | before
    · exact here
    · exact filed n old there other before
  · exact filed n old there other member

theorem Filed.refile (entries : List LocalSlot) : Filed hash (refile hash count entries) := by
  induction entries with
  | nil => exact .empty count
  | cons entry rest ih => exact ih.file

theorem modifyFlatten {n : Nat} (below : n < buckets.length) :
    (buckets.modify n (entry :: ·)).flatten.Perm (entry :: buckets.flatten) := by
  induction buckets generalizing n with
  | nil => cases below
  | cons bucket rest ih =>
    cases n with
    | zero => simp
    | succ n =>
      rw [List.modify_succ_cons,List.flatten_cons,List.flatten_cons]
      have moved := ih (Nat.lt_of_succ_lt_succ below)
      exact (moved.append_left bucket).trans List.perm_middle

theorem fileEntryFlatten (room : 0 < buckets.length) :
    (fileEntry hash entry buckets).flatten.Perm (entry :: buckets.flatten) :=
  modifyFlatten (Nat.mod_lt _ room)

theorem refileFlatten (room : 0 < count) (entries : List LocalSlot) :
    (refile hash count entries).flatten.Perm entries := by
  induction entries with
  | nil => simp [refile]
  | cons entry rest ih =>
    have filed : (fileEntry hash entry (refile hash count rest)).flatten.Perm
        (entry :: (refile hash count rest).flatten) :=
      fileEntryFlatten (by rwa [refileLength])
    exact filed.trans (ih.cons entry)

end Filing

structure NameMap (hash : String → Nat) where
  buckets : List (List LocalSlot) := []
  filed : Filed hash buckets := by exact .empty 0
  apart : (buckets.flatten.map (·.name)).Nodup := by exact .nil

namespace NameMap
variable {hash : String → Nat}

def values (map : NameMap hash) : List LocalSlot :=
  map.buckets.flatten

def size (map : NameMap hash) : Nat :=
  map.values.length

def find? (map : NameMap hash) (name : String) : Option LocalSlot :=
  map.buckets[hash name % map.buckets.length]?.bind fun bucket => bucket.find? (·.name == name)

theorem sameName (map : NameMap hash) {a b : LocalSlot} (one : a ∈ map.values)
    (two : b ∈ map.values) (same : a.name = b.name) : a = b := by
  obtain ⟨n,below,rfl⟩ := List.mem_iff_getElem.mp one
  obtain ⟨k,under,rfl⟩ := List.mem_iff_getElem.mp two
  have apart := List.pairwise_iff_getElem.mp (List.pairwise_map.mp map.apart)
  rcases Nat.lt_trichotomy n k with less | rfl | more
  · exact absurd same (apart n k below under less)
  · rfl
  · exact absurd same.symm (apart k n under below more)

theorem findSome (map : NameMap hash) {name : String} {entry : LocalSlot} :
    map.find? name = some entry ↔ entry ∈ map.values ∧ entry.name = name := by
  constructor
  · intro found
    obtain ⟨bucket,there,here⟩ := Option.bind_eq_some_iff.mp found
    exact ⟨List.mem_flatten.mpr ⟨bucket,List.mem_of_getElem? there,List.mem_of_find?_eq_some here⟩,
      by simpa using List.find?_some here⟩
  · rintro ⟨member,rfl⟩
    obtain ⟨bucket,among,inside⟩ := List.mem_flatten.mp member
    obtain ⟨n,there⟩ := List.getElem?_of_mem among
    have place := map.filed n bucket there entry inside
    have known : (bucket.find? (·.name == entry.name)).isSome = true :=
      List.find?_isSome.mpr ⟨entry,inside,beq_self_eq_true entry.name⟩
    obtain ⟨first,here⟩ := Option.isSome_iff_exists.mp known
    have also : first ∈ map.values :=
      List.mem_flatten.mpr ⟨bucket,among,List.mem_of_find?_eq_some here⟩
    have same : first = entry := map.sameName also member (by simpa using List.find?_some here)
    rw [find?,place,there,Option.bind_some,here,same]

theorem findNone (map : NameMap hash) {name : String} :
    map.find? name = none ↔ ∀ entry ∈ map.values, entry.name ≠ name := by
  rw [Option.eq_none_iff_forall_ne_some]
  simp only [ne_eq,map.findSome,not_and]

def grown (map : NameMap hash) : NameMap hash where
  buckets := refile hash (max 4 (2 * map.buckets.length)) map.values
  filed := .refile map.values
  apart := ((refileFlatten (by omega) map.values).map _).nodup_iff.mpr map.apart

def reserved (map : NameMap hash) : NameMap hash :=
  if map.size < map.buckets.length then map else map.grown

theorem reservedValues (map : NameMap hash) : map.reserved.values.Perm map.values := by
  unfold reserved
  split
  · exact .refl _
  · exact refileFlatten (by omega) map.values

theorem reservedRoom (map : NameMap hash) : 0 < map.reserved.buckets.length := by
  unfold reserved
  split
  · omega
  · simp only [grown,refileLength]
    omega

theorem reservedFree {map : NameMap hash} {name : String} (free : map.find? name = none) :
    map.reserved.find? name = none := by
  rw [findNone] at free ⊢
  intro entry member
  exact free entry (map.reservedValues.mem_iff.mp member)

def added (map : NameMap hash) (entry : LocalSlot) (room : 0 < map.buckets.length)
    (free : map.find? entry.name = none) : NameMap hash where
  buckets := fileEntry hash entry map.buckets
  filed := map.filed.file
  apart := by
    refine ((fileEntryFlatten room).map _).nodup_iff.mpr ?_
    rw [List.map_cons,List.nodup_cons]
    refine ⟨?_,map.apart⟩
    rintro known
    obtain ⟨other,member,same⟩ := List.mem_map.mp known
    exact map.findNone.mp free other member same

def orInsert (map : NameMap hash) (entry : LocalSlot) : LocalSlot × NameMap hash :=
  match found : map.find? entry.name with
  | some known => (known,map)
  | none => (entry,map.reserved.added entry map.reservedRoom (reservedFree found))

theorem orInsertFree {map : NameMap hash} (entry : LocalSlot)
    (free : map.find? entry.name = none) :
    (map.orInsert entry).1 = entry ∧
      (map.orInsert entry).2.values.Perm (entry :: map.values) := by
  unfold orInsert
  split
  · rename_i known found
    rw [free] at found
    cases found
  · exact ⟨rfl,(fileEntryFlatten map.reservedRoom).trans (map.reservedValues.cons entry)⟩

end NameMap

structure SymbolTable (hash : String → Nat) where
  entries : NameMap hash := {}
  nextSlot : UInt32 := 0

namespace SymbolTable
variable {hash : String → Nat}

def get? (table : SymbolTable hash) (name : String) : Option LocalSlot :=
  table.entries.find? name

def contains (table : SymbolTable hash) (name : String) : Bool :=
  (table.entries.find? name).isSome

def frameSize (table : SymbolTable hash) : UInt32 :=
  table.nextSlot

def size (table : SymbolTable hash) : Nat :=
  table.entries.size

def isEmpty (table : SymbolTable hash) : Bool :=
  table.entries.size == 0

def allocateSlot (table : SymbolTable hash) : UInt32 × SymbolTable hash :=
  (table.nextSlot,{ table with nextSlot := table.nextSlot + 1 })

def bind (table : SymbolTable hash) (name : String) (type : StaticType) (span : Span) :
    LocalSlot × SymbolTable hash :=
  let (slot,allocated) := table.allocateSlot
  let (entry,entries) := allocated.entries.orInsert ⟨name,slot,type,span⟩
  (entry,{ allocated with entries := entries })

def declare (table : SymbolTable hash) (name : String) (type : StaticType) (span : Span) :
    Except CompileError (LocalSlot × SymbolTable hash) :=
  match table.get? name with
  | some first => .error (.duplicateDeclaration name first.span span)
  | none => .ok (table.bind name type span)

def lookup (table : SymbolTable hash) (name : String) (span : Span) :
    Except CompileError LocalSlot :=
  match table.get? name with
  | some entry => .ok entry
  | none => .error (.undefinedVariable name span)

def declareOrReuse (table : SymbolTable hash) (name : String) (implicit : StaticType)
    (span : Span) : LocalSlot × SymbolTable hash :=
  match table.get? name with
  | some entry => (entry,table)
  | none => table.bind name implicit span

def intoLocals (table : SymbolTable hash) : List LocalSlot :=
  table.entries.values.mergeSort fun a b => a.slot ≤ b.slot

end SymbolTable
end ScriptMachine
