import Std.Data.ExtTreeMap
import ScriptMachine.Text.Fold
import ScriptMachine.Value.Basic
/-! The store: values under keys, in which the case of ASCII letters does not
count. A key that was never set reads as null. -/
namespace ScriptMachine

structure Store where
  entries : Std.ExtTreeMap String Value := {}

namespace Store

instance : Inhabited Store := ⟨{}⟩

def get? (store : Store) (key : String) : Option Value :=
  store.entries[Text.fold key]?

def get (store : Store) (key : String) : Value :=
  (store.get? key).getD .null

def set (store : Store) (key : String) (v : Value) : Store :=
  ⟨store.entries.insert (Text.fold key) v⟩

def contains (store : Store) (key : String) : Bool :=
  (store.get? key).isSome

def erase (store : Store) (key : String) : Store :=
  ⟨store.entries.erase (Text.fold key)⟩

def size (store : Store) : Nat :=
  store.entries.size

def toList (store : Store) : List (String × Value) :=
  store.entries.toList

@[simp] theorem getSet (store : Store) (key other : String) (v : Value) :
    (store.set key v).get? other =
      if Text.fold key = Text.fold other then some v else store.get? other := by
  simp [set,get?,Std.ExtTreeMap.getElem?_insert]

@[simp] theorem getErase (store : Store) (key other : String) :
    (store.erase key).get? other =
      if Text.fold key = Text.fold other then none else store.get? other := by
  simp [erase,get?,Std.ExtTreeMap.getElem?_erase]

end Store
end ScriptMachine
