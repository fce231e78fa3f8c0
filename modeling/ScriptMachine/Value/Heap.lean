import ScriptMachine.Value.Basic
/-! The heap holds the arrays of all scripts of a session. Arrays are numbered
in the order in which they are made, and a number is never used again. -/
namespace ScriptMachine

structure ArrayCell where
  element : StaticType
  items : Array Value
  deriving DecidableEq, Repr

structure Heap where
  cells : Array ArrayCell := #[]
  deriving DecidableEq, Repr, Inhabited

namespace Heap

def size (heap : Heap) : Nat :=
  heap.cells.size

def cell? (heap : Heap) (id : ArrayId) : Option ArrayCell :=
  heap.cells[id]?

def alloc (heap : Heap) (cell : ArrayCell) : ArrayId × Heap :=
  (heap.cells.size,⟨heap.cells.push cell⟩)

def setItem (heap : Heap) (id : ArrayId) (index : Nat) (v : Value) : Heap :=
  ⟨heap.cells.modify id fun cell => { cell with items := cell.items.setIfInBounds index v }⟩

@[simp] theorem sizeAlloc (heap : Heap) (cell : ArrayCell) :
    (heap.alloc cell).2.size = heap.size + 1 := by
  simp [alloc,size]

@[simp] theorem cellAlloc (heap : Heap) (cell : ArrayCell) (id : ArrayId) :
    (heap.alloc cell).2.cell? id = if id = heap.size then some cell else heap.cell? id := by
  by_cases last : id = heap.cells.size <;> simp [alloc,cell?,size,Array.getElem?_push,last]

@[simp] theorem cellSetItem (heap : Heap) (id other : ArrayId) (index : Nat) (v : Value) :
    (heap.setItem id index v).cell? other =
      if id = other then
        (heap.cell? other).map fun cell => { cell with items := cell.items.setIfInBounds index v }
      else heap.cell? other := by
  simp [setItem,cell?,Array.getElem?_modify]

end Heap
end ScriptMachine
