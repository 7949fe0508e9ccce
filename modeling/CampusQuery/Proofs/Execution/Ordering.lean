import CampusQuery.Proofs.Cell
import CampusQuery.Proofs.StableSort.Correctness
import CampusQuery.Sorting

/-!
# Sorting by keys

A sort may fail, and it never does so on rows of which none is greater than the rows that come after
greater ones (`Order.Transitive`): there it is the library's stable sort (`sort?_eq`). It is so if
the rows are compared by images that are totally ordered (`sort?_eq_of_image`).

The rank of a row is the list of the keys of its cells under the keys of an order. Rows that have
exact cells of one type under each key are compared by their ranks (`compareRows_eq`). If they are
also told by their ranks there is one way only to sort them: `sort?_congr` is that the sorted list
does not depend on the order in which the rows come. Rows that are level keep their order instead
(`sort?_of_level`).
-/

namespace CampusQuery

namespace Direction

theorem apply_then (direction : Direction) (a b : Ordering) :
    direction.apply (a.then b) = (direction.apply a).then (direction.apply b) := by
  cases direction with
  | up => rfl
  | down => exact Ordering.swap_then a b

theorem apply_swap (direction : Direction) (a : Ordering) :
    direction.apply a.swap = (direction.apply a).swap := by
  cases direction <;> rfl

theorem apply_eq_eq {direction : Direction} {a : Ordering} : direction.apply a = .eq ↔ a = .eq := by
  cases direction with
  | up => rfl
  | down => exact Ordering.swap_eq_eq

variable {α : Type} [Ord α] [Std.TransOrd α] {direction : Direction} {a b c : α}

theorem isLE_trans (hab : (direction.apply (compare a b)).isLE = true)
    (hbc : (direction.apply (compare b c)).isLE = true) :
    (direction.apply (compare a c)).isLE = true := by
  cases direction with
  | up => exact Std.TransOrd.isLE_trans hab hbc
  | down =>
    rw [apply, ← Std.OrientedOrd.eq_swap] at *
    exact Std.TransOrd.isLE_trans hbc hab

theorem isLE_total :
    ((direction.apply (compare a b)).isLE || (direction.apply (compare b a)).isLE) = true := by
  rw [Std.OrientedOrd.eq_swap (a := b)]
  cases direction <;> cases compare a b <;> rfl

end Direction

theorem compareCells_swap (a b : Option Cell) : compareCells b a = (compareCells a b).swap := by
  cases a with
  | none => cases b <;> rfl
  | some x =>
    cases b with
    | none => rfl
    | some y => exact Cell.compare_swap x y

namespace Order

theorem compareRows_swap (order : Order) (a b : WorkingRow) :
    order.compareRows b a = (order.compareRows a b).swap := by
  obtain ⟨direction, keys⟩ := order
  simp only [compareRows]
  induction keys with
  | nil => rfl
  | cons key keys ih =>
    rw [List.foldr_cons, List.foldr_cons, Ordering.swap_then, ih, compareBy, compareBy,
      compareCells_swap (a.get? key), Direction.apply_swap]

theorem compareRows_self (order : Order) (row : WorkingRow) : order.compareRows row row = .eq :=
  Ordering.eq_eq_of_eq_swap (order.compareRows_swap row row)

/-- Rows that are in order one after another are in order. -/
def Transitive (order : Order) (rows : List WorkingRow) : Prop :=
  ∀ a ∈ rows, ∀ b ∈ rows, ∀ c ∈ rows,
    order.compareRows a b ≠ .gt → order.compareRows b c ≠ .gt → order.compareRows a c ≠ .gt

variable {order : Order} {rows rows' : List WorkingRow}

theorem Transitive.coherent (h : order.Transitive rows) : StableSort.Coherent
    fun a b : {row // row ∈ rows} => decide (order.compareRows a b = .lt) := by
  have le {a b : WorkingRow} :
      decide (order.compareRows b a = .lt) = false ↔ order.compareRows a b ≠ .gt := by
    rw [decide_eq_false_iff_not, order.compareRows_swap a b, Ordering.swap_eq_lt]
  refine ⟨fun {a b} less => le.mpr ?_, fun {a b c} ab bc => le.mpr ?_⟩
  · rw [of_decide_eq_true less]
    nofun
  · exact h a a.2 b b.2 c c.2 (le.mp ab) (le.mp bc)

theorem sort?_eq (h : order.Transitive rows) :
    order.sort? rows = some (rows.mergeSort fun a b => (order.compareRows a b).isLE) := by
  have same : (fun a b => !decide (order.compareRows b a = .lt)) =
      fun a b => (order.compareRows a b).isLE := by
    funext a b
    rw [order.compareRows_swap a b]
    cases order.compareRows a b <;> rfl
  rw [sort?, StableSort.sort?_eq h.coherent, same]

/-- Whatever the order is, the sorted rows are the rows. -/
theorem sort?_perm {sorted : List WorkingRow} (run : order.sort? rows = some sorted) :
    sorted.Perm rows :=
  StableSort.sort?_perm run

section Image

variable {α : Type} [Ord α] [Std.TransOrd α] {image : WorkingRow → α}
  (compares : ∀ a ∈ rows, ∀ b ∈ rows,
    order.compareRows a b = order.direction.apply (compare (image a) (image b)))

include compares

theorem transitive_of_image : order.Transitive rows := by
  intro a ha b hb c hc ab bc
  rw [compares a ha b hb] at ab
  rw [compares b hb c hc] at bc
  rw [compares a ha c hc]
  exact Ordering.isLE_iff_ne_gt.mp (Direction.isLE_trans (Ordering.isLE_iff_ne_gt.mpr ab)
    (Ordering.isLE_iff_ne_gt.mpr bc))

theorem sort?_eq_of_image : order.sort? rows = some
    (rows.mergeSort fun a b => (order.direction.apply (compare (image a) (image b))).isLE) := by
  -- The comparisons agree on these rows only, which is what a map over the sorted list asks for.
  have agree := List.map_mergeSort (f := id) (l := rows)
    (r := fun a b => (order.compareRows a b).isLE)
    (s := fun a b => (order.direction.apply (compare (image a) (image b))).isLE)
    fun a ha b hb => congrArg Ordering.isLE (compares a ha b hb)
  rw [List.map_id, List.map_id] at agree
  rw [sort?_eq (transitive_of_image compares), agree]

end Image

/-- Rows that are level keep the order they have. -/
theorem sort?_of_level (level : rows.Pairwise fun a b => order.compareRows a b = .eq) :
    order.sort? rows = some rows := by
  have each := level.forall_of_forall_of_flip (fun a _ => order.compareRows_self a) <|
    level.imp fun {a b} same => by
      rw [flip, order.compareRows_swap a b, same]
      rfl
  have transitive : order.Transitive rows := fun a ha b hb c hc _ _ => by
    rw [each ha hc]
    nofun
  rw [sort?_eq transitive, List.mergeSort_of_pairwise (level.imp fun same => by rw [same]; rfl)]

/-- Rows are compared by the images of their cells, if the cells are compared by theirs. -/
theorem compareRows_map {α : Type} [Ord α] {image : Cell → α} {order : Order} {a b : WorkingRow}
    (cells : ∀ key ∈ order.keys, compareCells (a.get? key) (b.get? key) =
      compare ((a.get? key).map image) ((b.get? key).map image)) :
    order.compareRows a b = order.direction.apply
      (compare (order.keys.map fun key => (a.get? key).map image)
        (order.keys.map fun key => (b.get? key).map image)) := by
  obtain ⟨direction, keys⟩ := order
  simp only [compareRows] at cells ⊢
  induction keys with
  | nil => cases direction <;> rfl
  | cons key keys ih =>
    obtain ⟨first, rest⟩ := List.forall_mem_cons.mp cells
    rw [List.foldr_cons, ih rest, compareBy, first, List.map_cons, List.map_cons,
      List.compare_eq_compareLex, List.compareLex_cons_cons, Direction.apply_then]

/-- The keys of the cells that a row is ordered by. -/
def rank (order : Order) (row : WorkingRow) : List (Option CellKey) :=
  order.keys.map fun key => (row.get? key).map Cell.key

/-- Both rows have exact cells of one type under the key, as far as they have cells. -/
def Comparable (key : Column) (a b : WorkingRow) : Prop :=
  ∀ x y, a.get? key = some x → b.get? key = some y →
    x.Exact ∧ y.Exact ∧ x.isNumber = y.isNumber

theorem compareCells_eq {key : Column} {a b : WorkingRow} (h : Comparable key a b) :
    compareCells (a.get? key) (b.get? key) =
      compare ((a.get? key).map Cell.key) ((b.get? key).map Cell.key) := by
  cases hx : a.get? key with
  | none => cases b.get? key <;> rfl
  | some x =>
    cases hy : b.get? key with
    | none => rfl
    | some y =>
      obtain ⟨hx, hy, same⟩ := h x y hx hy
      exact hx.compare_eq hy same

theorem compareRows_eq {a b : WorkingRow} (h : ∀ key ∈ order.keys, Comparable key a b) :
    order.compareRows a b = order.direction.apply (compare (order.rank a) (order.rank b)) :=
  compareRows_map fun key mem => compareCells_eq (h key mem)

theorem isLE_antisymm {direction : Direction} {a b : List (Option CellKey)}
    (hab : (direction.apply (compare a b)).isLE = true)
    (hba : (direction.apply (compare b a)).isLE = true) : a = b := by
  cases direction with
  | up => exact Std.LawfulEqOrd.eq_of_compare (Std.OrientedCmp.isLE_antisymm hab hba)
  | down =>
    rw [Direction.apply, ← Std.OrientedOrd.eq_swap] at hab hba
    exact Std.LawfulEqOrd.eq_of_compare (Std.OrientedCmp.isLE_antisymm hba hab)

/-- Rows that are told by their ranks have one sorted list, however they are given. -/
theorem sort?_congr (comparable : ∀ a ∈ rows, ∀ b ∈ rows, ∀ key ∈ order.keys, Comparable key a b)
    (perm : rows.Perm rows')
    (told : ∀ a ∈ rows, ∀ b ∈ rows, order.rank a = order.rank b → a = b) :
    order.sort? rows = order.sort? rows' := by
  let le (a b : WorkingRow) : Bool :=
    (order.direction.apply (compare (order.rank a) (order.rank b))).isLE
  have trans (a b c : WorkingRow) : le a b = true → le b c = true → le a c = true :=
    Direction.isLE_trans
  have total (a b : WorkingRow) : (le a b || le b a) = true := Direction.isLE_total
  have sorted := List.pairwise_mergeSort trans total
  have compares : ∀ a ∈ rows, ∀ b ∈ rows, order.compareRows a b =
      order.direction.apply (compare (order.rank a) (order.rank b)) :=
    fun a ha b hb => compareRows_eq (comparable a ha b hb)
  have compares' : ∀ a ∈ rows', ∀ b ∈ rows', order.compareRows a b =
      order.direction.apply (compare (order.rank a) (order.rank b)) :=
    fun a ha b hb => compares a (perm.mem_iff.mpr ha) b (perm.mem_iff.mpr hb)
  rw [sort?_eq_of_image compares, sort?_eq_of_image compares', Option.some_inj]
  refine List.Perm.eq_of_pairwise (fun a b ha hb hab hba => ?_) (sorted rows) (sorted rows')
    ((List.mergeSort_perm _ _).trans (perm.trans (List.mergeSort_perm _ _).symm))
  exact told a (List.mem_mergeSort.mp ha) b (perm.mem_iff.mpr (List.mem_mergeSort.mp hb))
    (isLE_antisymm hab hba)

end Order

theorem sortRows?_perm {order : Option Order} {rows sorted : List WorkingRow}
    (run : sortRows? order rows = some sorted) : sorted.Perm rows := by
  cases order with
  | none => exact Option.some_inj.mp run ▸ .refl rows
  | some order => exact Order.sort?_perm run

end CampusQuery
