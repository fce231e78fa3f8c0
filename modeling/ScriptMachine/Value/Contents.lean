import ScriptMachine.Text.Quoted
import ScriptMachine.Value.Heap
/-! The contents of a value: the value with the arrays in it written out in
place. Values are compared and shown by their contents, so that two arrays with
the same elements are equal wherever they are stored. An array that holds
itself has no finite contents. -/
namespace ScriptMachine

inductive Contents where
  | null
  | int (n : Int32)
  | long (n : Int64)
  | decimal (d : Decimal)
  | bool (b : Bool)
  | string (s : String)
  | boxed (inner : Contents)
  | array (element : StaticType) (items : List Contents)
  | store
  deriving Repr

namespace Contents

mutual
def same : Contents → Contents → Bool
  | null, null => true
  | int a, int b => a == b
  | long a, long b => a == b
  | decimal a, decimal b => a.sameNumber b
  | bool a, bool b => a == b
  | string a, string b => a == b
  | boxed a, boxed b => same a b
  | array s as, array t bs => s == t && sameAll as bs
  | store, store => true
  | _, _ => false

def sameAll : List Contents → List Contents → Bool
  | [], [] => true
  | a :: as, b :: bs => same a b && sameAll as bs
  | _, _ => false
end

mutual
def describe : Contents → String
  | null => "Null"
  | int n => "Int(" ++ toString n.toInt ++ ")"
  | long n => "Long(" ++ toString n.toInt ++ ")"
  | decimal d => "Decimal(" ++ String.ofList d.text ++ ")"
  | bool b => if b then "Bool(true)" else "Bool(false)"
  | string s => "String(" ++ Text.quote s ++ ")"
  | boxed inner => "Boxed(" ++ inner.describe ++ ")"
  | array element items =>
    "Array<" ++ element.name ++ ">[" ++ String.intercalate ", " (describeAll items) ++ "]"
  | store => "Store"

def describeAll : List Contents → List String
  | [] => []
  | item :: items => item.describe :: describeAll items
end

def ofValue? (arrays : ArrayId → Option Contents) : Value → Option Contents
  | .null => some null
  | .int n => some (int n)
  | .long n => some (long n)
  | .decimal d => some (decimal d)
  | .bool b => some (bool b)
  | .string s => some (string s)
  | .boxed inner => (ofValue? arrays inner).map boxed
  | .array id => arrays id
  | .store => some store

end Contents

namespace Heap

def arrayContents? (heap : Heap) : Nat → ArrayId → Option Contents
  | 0, _ => none
  | depth + 1, id => do
    let cell ← heap.cell? id
    let items ← cell.items.toList.mapM (Contents.ofValue? (heap.arrayContents? depth))
    some (.array cell.element items)

/-- The contents of a value. Arrays that do not hold themselves are nested no
deeper than there are arrays, so that depth is enough. -/
def contents? (heap : Heap) (v : Value) : Option Contents :=
  Contents.ofValue? (heap.arrayContents? heap.size) v

def sameContents (heap : Heap) (a b : Value) : Bool :=
  match heap.contents? a, heap.contents? b with
  | some x, some y => x.same y
  | _, _ => false

end Heap
end ScriptMachine
