import ScriptMachine.Code.Listing
import ScriptMachine.Property.Basic
import ScriptMachine.Span
/-! Compiled methods: a listing, the locals that its slots stand for and the
properties that its accessor operands stand for. A local's slot is its position. -/
namespace ScriptMachine

structure Local where
  name : String
  type : StaticType
  span : Span
  deriving DecidableEq, Repr

structure Binding where
  slot : Nat
  entry : Local
  deriving DecidableEq, Repr

def findLocalFrom : Nat → List Local → String → Option Binding
  | _, [], _ => none
  | slot, entry :: rest, name =>
    if entry.name = name then some ⟨slot,entry⟩ else findLocalFrom (slot + 1) rest name

def findLocal? (locals : List Local) (name : String) : Option Binding :=
  findLocalFrom 0 locals name

theorem findLocalFromSound {slot : Nat} {locals : List Local} {name : String} {b : Binding}
    (found : findLocalFrom slot locals name = some b) :
    slot ≤ b.slot ∧ locals[b.slot - slot]? = some b.entry ∧ b.entry.name = name := by
  induction locals generalizing slot with
  | nil => simp [findLocalFrom] at found
  | cons entry rest ih =>
    unfold findLocalFrom at found
    split at found
    · cases found
      simp_all
    · obtain ⟨low,position,same⟩ := ih found
      have step : b.slot - slot = (b.slot - (slot + 1)) + 1 := by omega
      exact ⟨by omega,by rw [step]; simpa using position,same⟩

theorem findLocalSound {locals : List Local} {name : String} {b : Binding}
    (found : findLocal? locals name = some b) :
    locals[b.slot]? = some b.entry ∧ b.entry.name = name := by
  simpa using (findLocalFromSound found).2

theorem findLocalFromNone {slot : Nat} {locals : List Local} {name : String} :
    findLocalFrom slot locals name = none ↔ ∀ entry ∈ locals, entry.name ≠ name := by
  induction locals generalizing slot with
  | nil => simp [findLocalFrom]
  | cons entry rest ih =>
    unfold findLocalFrom
    split
    · simp_all
    · simp_all

theorem findLocalFromAppend {slot : Nat} {locals more : List Local} {name : String} :
    findLocalFrom slot (locals ++ more) name =
      (findLocalFrom slot locals name).or (findLocalFrom (slot + locals.length) more name) := by
  induction locals generalizing slot with
  | nil => simp [findLocalFrom]
  | cons entry rest ih =>
    simp only [List.cons_append,findLocalFrom,List.length_cons,ih]
    split
    · rfl
    · rw [Nat.add_right_comm,Nat.add_assoc]

structure CompiledMethod where
  name : String
  listing : Listing
  locals : List Local
  accessors : List Property
  deriving DecidableEq, Repr

def CompiledMethod.local? (m : CompiledMethod) (name : String) : Option Binding :=
  findLocal? m.locals name

end ScriptMachine
