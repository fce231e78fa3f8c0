import ScriptMachine.Proofs.ArrayGraph
import ScriptMachine.Proofs.Evaluation
/-! Arrays of one heap taken for arrays of another. Linked arrays have the same
element type and linked elements, so that linked values are equal but for the
numbers of their arrays: they convert alike and have the same contents. -/
namespace ScriptMachine

abbrev Links := ArrayId → ArrayId → Prop

inductive Value.Linked (r : Links) : Value → Value → Prop where
  | plain {v} (alone : v.ref? = none) : Linked r v v
  | array {a b} (linked : r a b) : Linked r (.array a) (.array b)
  | boxed {v w} (inner : Linked r v w) : Linked r (.boxed v) (.boxed w)

structure ArrayCell.Linked (r : Links) (c d : ArrayCell) : Prop where
  element : c.element = d.element
  size : c.items.size = d.items.size
  items : ∀ {n : Nat} {v w}, c.items[n]? = some v → d.items[n]? = some w → v.Linked r w

namespace Links

def Joins (r : Links) (h k : Heap) : Prop :=
  ∀ a b, r a b → ∃ c d, h.cell? a = some c ∧ k.cell? b = some d ∧ c.Linked r d

structure Grows (r q : Links) (left right : Nat) : Prop where
  more : ∀ {a b}, r a b → q a b
  first : ∀ {a b}, q a b → (∃ other, r a other) ∨ left ≤ a
  second : ∀ {a b}, q a b → (∃ other, r other b) ∨ right ≤ b

theorem growsRefl (r : Links) (left right : Nat) : r.Grows r left right :=
  ⟨fun linked => linked,fun linked => .inl ⟨_,linked⟩,fun linked => .inl ⟨_,linked⟩⟩

theorem Grows.trans {r q p : Links} {left right more others : Nat} (before : r.Grows q left right)
    (after : q.Grows p more others) (lower : left ≤ more) (under : right ≤ others) :
    r.Grows p left right := by
  constructor
  · intro a b linked
    exact after.more (before.more linked)
  · intro a b linked
    rcases after.first linked with ⟨other,known⟩ | new
    · exact before.first known
    · exact .inr (Nat.le_trans lower new)
  · intro a b linked
    rcases after.second linked with ⟨other,known⟩ | new
    · exact before.second known
    · exact .inr (Nat.le_trans under new)

end Links

namespace Value.Linked
variable {r q : Links} {v w : Value}

theorem mono (more : ∀ {a b}, r a b → q a b) (linked : v.Linked r w) : v.Linked q w := by
  induction linked with
  | plain alone => exact .plain alone
  | array linked => exact .array (more linked)
  | boxed inner ih => exact .boxed ih

theorem self (own : ∀ id, v.ref? = some id → r id id) : v.Linked r v := by
  induction v with
  | array id => exact .array (own id rfl)
  | boxed inner ih => exact .boxed (ih own)
  | null | int | long | decimal | bool | string | store => exact .plain rfl

theorem sameRaw (linked : v.Linked r w) : v.isRaw = w.isRaw := by
  cases linked <;> rfl

theorem asObject (linked : v.Linked r w) : v.asObject.Linked r w.asObject := by
  unfold Value.asObject
  rw [linked.sameRaw]
  split
  · exact .boxed linked
  · exact linked

theorem sameConvert (linked : v.Linked r w) (target : Scalar) :
    v.convert target = w.convert target := by
  cases linked with
  | plain alone => rfl
  | array linked => cases target <;> rfl
  | boxed inner =>
    cases inner with
    | plain alone => rfl
    | array linked => cases target <;> rfl
    | boxed inner => cases target <;> rfl

theorem sameText (linked : v.Linked r w) : v.toText = w.toText :=
  Value.string.inj (linked.sameConvert .string)

theorem convertTo (linked : v.Linked r w) (wanted : StaticType) :
    (v.convertTo wanted).Linked r (w.convertTo wanted) := by
  have converted (target : Scalar) : (v.convert target).Linked r (w.convert target) := by
    rw [linked.sameConvert]
    exact .plain (by cases target <;> rfl)
  cases wanted with
  | object => exact linked.asObject
  | array element => exact linked
  | void => exact linked
  | string => exact converted .string
  | decimal => exact converted .decimal
  | long => exact converted .long
  | int => exact converted .int
  | bool => exact converted .bool

end Value.Linked

namespace ArrayCell.Linked
variable {r q : Links} {c d : ArrayCell}

theorem mono (more : ∀ {a b}, r a b → q a b) (linked : c.Linked r d) : c.Linked q d :=
  ⟨linked.element,linked.size,fun first second => (linked.items first second).mono more⟩

theorem setItem (linked : c.Linked r d) {v w : Value} (values : v.Linked r w) (index : Nat) :
    ArrayCell.Linked r { c with items := c.items.setIfInBounds index v }
      { d with items := d.items.setIfInBounds index w } := by
  refine ⟨linked.element,by simp [linked.size],?_⟩
  intro n first second left right
  simp only [Array.getElem?_setIfInBounds] at left right
  split at left
  · rename_i same
    rw [if_pos same] at right
    split at left
    · split at right
      · cases left
        cases right
        exact values
      · cases right
    · cases left
  · rename_i other
    rw [if_neg other] at right
    exact linked.items left right

theorem filled (element : StaticType) (count : Nat) :
    ArrayCell.Linked r ⟨element,Array.replicate count element.initial⟩
      ⟨element,Array.replicate count element.initial⟩ := by
  refine ⟨rfl,rfl,?_⟩
  intro n v w first second
  cases first.symm.trans second
  simp only [Array.getElem?_replicate] at first
  split at first
  · cases first
    exact .plain (Value.initialRef element)
  · cases first

end ArrayCell.Linked

namespace Links.Joins
variable {r : Links} {h k : Heap}

theorem within (joins : r.Joins h k) {later after : Heap} (left : h.Within later)
    (right : k.Within after) : r.Joins later after := by
  intro a b linked
  obtain ⟨c,d,first,second,cells⟩ := joins a b linked
  exact ⟨c,d,left a c first,right b d second,cells⟩

theorem below (joins : r.Joins h k) {a b : ArrayId} (linked : r a b) : a < h.size ∧ b < k.size := by
  obtain ⟨c,d,first,second,_⟩ := joins a b linked
  exact ⟨Heap.cellBelow first,Heap.cellBelow second⟩

theorem add (joins : r.Joins h k) {x y : ArrayId} {c d : ArrayCell} (first : h.cell? x = some c)
    (second : k.cell? y = some d) (cells : c.Linked r d) :
    Links.Joins (fun a b => r a b ∨ a = x ∧ b = y) h k := by
  intro a b linked
  rcases linked with linked | ⟨rfl,rfl⟩
  · obtain ⟨c,d,left,right,cells⟩ := joins a b linked
    exact ⟨c,d,left,right,cells.mono .inl⟩
  · exact ⟨c,d,first,second,cells.mono .inl⟩

end Links.Joins

theorem mapMSame {α β γ : Type} {f : α → Option γ} {g : β → Option γ} {xs : List α} {ys : List β}
    (length : xs.length = ys.length)
    (each : ∀ (n : Nat) x y, xs[n]? = some x → ys[n]? = some y → f x = g y) :
    xs.mapM f = ys.mapM g := by
  induction xs generalizing ys with
  | nil =>
    cases ys with
    | nil => rfl
    | cons y ys => simp at length
  | cons x xs ih =>
    cases ys with
    | nil => simp at length
    | cons y ys =>
      have rest := ih (Nat.succ.inj length) fun n x y => each (n + 1) x y
      simp only [List.mapM_cons,each 0 x y rfl rfl,rest]

theorem Value.Linked.sameWritten {r : Links} {v w : Value} (linked : v.Linked r w)
    {f g : ArrayId → Option Contents} (arrays : ∀ a b, r a b → f a = g b) :
    Contents.ofValue? f v = Contents.ofValue? g w := by
  induction linked with
  | @plain v alone =>
    induction v with
    | array id => cases alone
    | boxed inner ih => simp only [Contents.ofValue?,ih alone]
    | null | int | long | decimal | bool | string | store => rfl
  | array linked => exact arrays _ _ linked
  | boxed inner ih => simp only [Contents.ofValue?,ih]

theorem Links.Joins.sameContents {r : Links} {h k : Heap} (joins : r.Joins h k) (depth : Nat) :
    ∀ a b, r a b → h.arrayContents? depth a = k.arrayContents? depth b := by
  induction depth with
  | zero =>
    intro a b _
    rfl
  | succ depth ih =>
    intro a b linked
    obtain ⟨c,d,first,second,cells⟩ := joins a b linked
    have items : c.items.toList.mapM (Contents.ofValue? (h.arrayContents? depth)) =
        d.items.toList.mapM (Contents.ofValue? (k.arrayContents? depth)) := by
      refine mapMSame (by simpa using cells.size) ?_
      intro n v w left right
      simp only [Array.getElem?_toList] at left right
      exact (cells.items left right).sameWritten ih
    simp only [Heap.arrayContents?,first,second,Option.bind_eq_bind,Option.bind_some,
      cells.element,items]

/-- Two values, each with the arrays of its own heap, that are equal but for the
numbers of their arrays: they are linked, and written out to any depth they are the same. -/
structure Value.SameIn (h k : Heap) (v w : Value) : Prop where
  linked : ∃ r : Links, r.Joins h k ∧ v.Linked r w
  contents : ∀ depth, Contents.ofValue? (h.arrayContents? depth) v =
    Contents.ofValue? (k.arrayContents? depth) w

theorem Links.Joins.same {r : Links} {h k : Heap} (joins : r.Joins h k) {v w : Value}
    (linked : v.Linked r w) : v.SameIn h k w :=
  ⟨⟨r,joins,linked⟩,fun depth => linked.sameWritten (joins.sameContents depth)⟩

structure Environment.Linked (r : Links) (e f : Environment) : Prop where
  level : e.errorLevel.Linked r f.errorLevel
  others : { e with errorLevel := .null } = { f with errorLevel := .null }

def Store.Linked (r : Links) (s t : Store) : Prop :=
  ∀ key, Option.Rel (Value.Linked r) (s.get? key) (t.get? key)

structure Surroundings.Linked (r : Links) (s t : Surroundings) : Prop where
  environment : s.environment.Linked r t.environment
  heap : r.Joins s.heap t.heap

namespace Store.Linked
variable {r q : Links} {s t : Store}

theorem mono (more : ∀ {a b}, r a b → q a b) (linked : s.Linked r t) : s.Linked q t := by
  intro key
  have found := linked key
  generalize s.get? key = left at found ⊢
  generalize t.get? key = right at found ⊢
  cases found with
  | some values => exact .some (values.mono more)
  | none => exact .none

theorem get (linked : s.Linked r t) (key : String) : (s.get key).Linked r (t.get key) := by
  have found := linked key
  unfold Store.get
  generalize s.get? key = left at found ⊢
  generalize t.get? key = right at found ⊢
  cases found with
  | some values => exact values
  | none => exact .plain rfl

theorem set (linked : s.Linked r t) {v w : Value} (values : v.Linked r w) (key : String) :
    (s.set key v).Linked r (t.set key w) := by
  intro other
  rw [getSet,getSet]
  split
  · exact .some values
  · exact linked other

end Store.Linked

theorem Environment.Linked.mono {r q : Links} {e f : Environment}
    (more : ∀ {a b}, r a b → q a b) (linked : e.Linked r f) : e.Linked q f :=
  ⟨linked.level.mono more,linked.others⟩

end ScriptMachine
