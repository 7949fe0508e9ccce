import CampusQuery.Proofs.Execution.Comparison
import CampusQuery.Proofs.Execution.Ordering

/-!
# Sorting is stable

The cells under a key of an order are in a total order, level ones aside, if they are texts, or
integers, or numbers none of which is rounded (`Sortable`): each of them then has a place, and they
are compared by their places (`Sortable.compare_eq`). If it is so for all keys, rows are compared by
the places of their cells (`Order.compareRows_places`).

`sortRows_sorts` says that sorting keeps all rows, leaves none of them before a row that it is
greater than, and leaves level rows in the order they had. Which of two rows is the greater one is
decided by the first key on which they differ (`Order.compareRows_eq_lt`).
-/

namespace CampusQuery

/-- Items that are level with each other keep their order when a list is sorted. -/
theorem filter_mergeSort {α : Type} {le : α → α → Bool}
    (trans : ∀ a b c, le a b = true → le b c = true → le a c = true)
    (total : ∀ a b, (le a b || le b a) = true) {items : List α} {p : α → Bool}
    (level : ∀ a ∈ items, ∀ b ∈ items, p a = true → p b = true → le a b = true) :
    (items.mergeSort le).filter p = items.filter p := by
  have inOrder : (items.filter p).Pairwise fun a b => le a b = true :=
    List.pairwise_of_forall_mem_list fun a ha b hb =>
      level a (List.mem_of_mem_filter ha) b (List.mem_of_mem_filter hb)
        (List.mem_filter.mp ha).2 (List.mem_filter.mp hb).2
  have kept := (List.sublist_mergeSort trans total inOrder List.filter_sublist).filter p
  rw [List.filter_filter] at kept
  simp only [Bool.and_self] at kept
  exact (kept.eq_of_length ((List.mergeSort_perm items le).filter p).length_eq.symm).symm

/-- Where a cell stands among others of its sort. -/
structure Place where
  number : Int
  string : String

namespace Place

instance : Ord Place where
  compare := compareLex (compareOn number) (compareOn string)

instance : Std.TransOrd Place :=
  inferInstanceAs (Std.TransCmp (compareLex (compareOn number) (compareOn string)))

theorem compare_number (m n : Int) (s : String) :
    compare (⟨m, s⟩ : Place) ⟨n, s⟩ = compare m n := by
  have parts : compare (⟨m, s⟩ : Place) ⟨n, s⟩ = (compare m n).then (compare s s) := rfl
  rw [parts, Std.ReflOrd.compare_self, Ordering.then_eq]

theorem compare_string (n : Int) (s t : String) :
    compare (⟨n, s⟩ : Place) ⟨n, t⟩ = compare s t := by
  have parts : compare (⟨n, s⟩ : Place) ⟨n, t⟩ = (compare n n).then (compare s t) := rfl
  rw [parts, Std.ReflOrd.compare_self, Ordering.eq_then]

end Place

/-- A number stands where its units say, and a text by itself. -/
def Cell.place : Cell → Place
  | integer n => ⟨n.toInt * Binary64.one, ""⟩
  | float x => ⟨x.units, ""⟩
  | text s => ⟨0, s⟩

/-- The cells are texts, or they are integers, or they are numbers other than NaN among which no
integer is large enough to be rounded. -/
inductive Sortable (cells : List Cell) : Prop
  | texts (each : ∀ cell ∈ cells, ∃ s, cell = .text s)
  | integers (each : ∀ cell ∈ cells, ∃ n, cell = .integer n)
  | numbers (each : ∀ cell ∈ cells, cell.Number)
    (small : ∀ n, .integer n ∈ cells → n.toInt.natAbs ≤ 2 ^ 53)

namespace Sortable

theorem compare_place_integer (m n : Int64) :
    (Cell.integer m).compare (.integer n) =
      Ord.compare (Cell.integer m).place (Cell.integer n).place := by
  have grows : StrictMono fun k : Int => k * Binary64.one := fun _ _ less =>
    Int.mul_lt_mul_of_pos_right less (Int.natCast_pos.mpr Binary64.one_pos)
  rw [Cell.compare_integer, Cell.place, Cell.place, Place.compare_number, ← cmp_eq_compare,
    ← cmp_eq_compare, ← grows.cmp_map_eq]

variable {cells : List Cell}

theorem compare_eq (h : Sortable cells) {a b : Cell} (ha : a ∈ cells) (hb : b ∈ cells) :
    a.compare b = Ord.compare a.place b.place := by
  cases h with
  | texts each =>
    obtain ⟨s, rfl⟩ := each a ha
    obtain ⟨t, rfl⟩ := each b hb
    exact (Place.compare_string 0 s t).symm
  | integers each =>
    obtain ⟨m, rfl⟩ := each a ha
    obtain ⟨n, rfl⟩ := each b hb
    exact compare_place_integer m n
  | numbers each small =>
    have place {cell : Cell} (mem : cell ∈ cells) : cell.place = ⟨cell.rounded, ""⟩ := by
      cases each cell mem with
      | integer n => rw [Cell.place, Cell.rounded, Binary64.units_ofInt_of_le (small n mem)]
      | float hx => rfl
    -- Only two integers are not compared as they are rounded.
    rcases Cell.integers_or_beside a b with ⟨m, n, rfl, rfl⟩ | ⟨left, right⟩
    · exact compare_place_integer m n
    · rw [Cell.compare_eq (each a ha) (each b hb), left, right, place ha, place hb,
        Place.compare_number]

theorem compareCells_eq (h : Sortable cells) {a b : Option Cell} (ha : ∀ x ∈ a, x ∈ cells)
    (hb : ∀ y ∈ b, y ∈ cells) :
    compareCells a b = compare (a.map Cell.place) (b.map Cell.place) := by
  cases a with
  | none => cases b <;> rfl
  | some x =>
    cases b with
    | none => rfl
    | some y => exact h.compare_eq (ha x rfl) (hb y rfl)

end Sortable

/-! ## The order of rows -/

/-- The cells that the rows have under a key. -/
def Column.cells (key : Column) (rows : List WorkingRow) : List Cell :=
  rows.filterMap (·.get? key)

theorem Column.mem_cells {key : Column} {rows : List WorkingRow} {row : WorkingRow}
    (mem : row ∈ rows) : ∀ cell ∈ row.get? key, cell ∈ key.cells rows :=
  fun _ found => List.mem_filterMap.mpr ⟨row, mem, found⟩

/-- In ascending order a cell comes before another one if it is absent, or if it is less. -/
inductive Ascends : Option Cell → Option Cell → Prop
  | absent (b : Cell) : Ascends none (some b)
  | less {a b : Cell} (h : a.compare b = .lt) : Ascends (some a) (some b)

theorem ascends_iff {a b : Option Cell} : Ascends a b ↔ compareCells a b = .lt := by
  constructor
  · rintro (_ | h)
    · rfl
    · exact h
  · intro h
    match a, b with
    | none, some b => exact .absent b
    | some a, some b => exact .less h

/-- Whether a cell comes before another one in the direction. -/
def Direction.Puts : Direction → Option Cell → Option Cell → Prop
  | up, a, b => Ascends a b
  | down, a, b => Ascends b a

theorem Direction.puts_iff {direction : Direction} {a b : Option Cell} :
    direction.Puts a b ↔ direction.apply (compareCells a b) = .lt := by
  cases direction with
  | up => exact ascends_iff
  | down => rw [Puts, ascends_iff, compareCells_swap, apply]

namespace Order

/-- A row comes before another one by the first of the keys on which they differ. -/
inductive Precedes (direction : Direction) (a b : WorkingRow) : List Column → Prop
  | here {key : Column} {keys : List Column} (h : direction.Puts (a.get? key) (b.get? key)) :
    Precedes direction a b (key :: keys)
  | later {key : Column} {keys : List Column}
    (level : compareCells (a.get? key) (b.get? key) = .eq) (h : Precedes direction a b keys) :
    Precedes direction a b (key :: keys)

/-- The rows in order: all of them, none before one that it is greater than, and level ones as they
were. -/
structure Sorts (order : Order) (rows sorted : List WorkingRow) : Prop where
  perm : sorted.Perm rows
  ascending : sorted.Pairwise fun a b => order.compareRows a b ≠ .gt
  stable : ∀ row ∈ rows, sorted.filter (order.compareRows row · = .eq) =
    rows.filter (order.compareRows row · = .eq)

/-- The places of the cells that a row is ordered by. -/
def places (order : Order) (row : WorkingRow) : List (Option Place) :=
  order.keys.map fun key => (row.get? key).map Cell.place

variable {order : Order} {a b : WorkingRow}

/-- The first key on which two rows differ decides which of them comes first. -/
theorem compareRows_eq_lt :
    order.compareRows a b = .lt ↔ Precedes order.direction a b order.keys := by
  obtain ⟨direction, keys⟩ := order
  simp only [compareRows]
  induction keys with
  | nil =>
    constructor
    · intro less
      cases less
    · intro precedes
      cases precedes
  | cons key keys ih =>
    have puts : direction.Puts (a.get? key) (b.get? key) ↔ compareBy direction key a b = .lt :=
      Direction.puts_iff
    have level : compareBy direction key a b = .eq ↔
        compareCells (a.get? key) (b.get? key) = .eq := Direction.apply_eq_eq
    rw [List.foldr_cons, Ordering.then_eq_lt, level, ih, ← puts]
    constructor
    · rintro (here | ⟨same, later⟩)
      · exact .here here
      · exact .later same later
    · rintro (here | ⟨same, later⟩)
      · exact .inl here
      · exact .inr ⟨same, later⟩

theorem compareRows_places {rows : List WorkingRow}
    (sortable : ∀ key ∈ order.keys, Sortable (key.cells rows)) (ha : a ∈ rows) (hb : b ∈ rows) :
    order.compareRows a b = order.direction.apply (compare (order.places a) (order.places b)) :=
  compareRows_map fun key mem =>
    (sortable key mem).compareCells_eq (Column.mem_cells ha) (Column.mem_cells hb)

theorem exists_sorts {rows : List WorkingRow}
    (sortable : ∀ key ∈ order.keys, Sortable (key.cells rows)) :
    ∃ sorted, order.sort? rows = some sorted ∧ order.Sorts rows sorted := by
  let le (a b : WorkingRow) : Bool :=
    (order.direction.apply (compare (order.places a) (order.places b))).isLE
  have trans (a b c : WorkingRow) : le a b = true → le b c = true → le a c = true :=
    Direction.isLE_trans
  have total (a b : WorkingRow) : (le a b || le b a) = true := Direction.isLE_total
  have places : ∀ a ∈ rows, ∀ b ∈ rows, order.compareRows a b =
      order.direction.apply (compare (order.places a) (order.places b)) :=
    fun a ha b hb => compareRows_places sortable ha hb
  have agree {a b : WorkingRow} (ha : a ∈ rows) (hb : b ∈ rows) :
      (order.compareRows a b).isLE = le a b :=
    congrArg Ordering.isLE (places a ha b hb)
  refine ⟨rows.mergeSort le, sort?_eq_of_image places, List.mergeSort_perm rows le, ?_,
    fun row mem => ?_⟩
  · refine (List.pairwise_mergeSort trans total rows).imp_of_mem fun ha hb before => ?_
    rw [← agree (List.mem_mergeSort.mp ha) (List.mem_mergeSort.mp hb)] at before
    exact Ordering.isLE_iff_ne_gt.mp before
  · refine filter_mergeSort trans total fun a ha b hb left right => trans a row b ?_ ?_
    · rw [← agree ha mem, order.compareRows_swap row a, of_decide_eq_true left]
      rfl
    · rw [← agree mem hb, of_decide_eq_true right]
      rfl

end Order

/-- Rows are sorted stably by the first key on which they differ, and left as they are without an
order. -/
theorem sortRows_sorts (order : Order) (rows : List WorkingRow)
    (sortable : ∀ key ∈ order.keys, Sortable (key.cells rows)) :
    sortRows? none rows = some rows ∧
      (∃ sorted, sortRows? (some order) rows = some sorted ∧ order.Sorts rows sorted) ∧
      ∀ a b,
        (order.compareRows a b = .lt ↔ Order.Precedes order.direction a b order.keys) ∧
        (order.compareRows a b = .gt ↔ Order.Precedes order.direction b a order.keys) := by
  refine ⟨rfl, Order.exists_sorts sortable, fun a b => ⟨Order.compareRows_eq_lt, ?_⟩⟩
  rw [← Order.compareRows_eq_lt, order.compareRows_swap a b, Ordering.swap_eq_lt]

/-- Two averages that are level, an integer and a binary64 number, and a row without one. -/
def averages : List WorkingRow :=
  [.source (.ofCells [("dept", .text "math")]),
    .source (.ofCells [("dept", .text "cpsc"), ("avg", .integer 80)]),
    .source (.ofCells [("dept", .text "cpsc"), ("avg", .float (.ofInt 80))])]

/-- The best average first, and among level ones the last department. -/
def Order.bestFirst : Order := ⟨.down, [.field "avg", .field "dept"]⟩

theorem sortable_averages : ∀ key ∈ Order.bestFirst.keys, Sortable (key.cells averages) := by
  have numbers : (Column.field "avg").cells averages = [.integer 80, .float (.ofInt 80)] := rfl
  have texts : (Column.field "dept").cells averages =
      [.text "math", .text "cpsc", .text "cpsc"] := rfl
  have each : ∀ cell ∈ [Cell.integer 80, .float (.ofInt 80)], cell.Number := by
    simp [Cell.Number.integer, Cell.Number.float (Binary64.isNaN_ofInt 80)]
  rw [Order.bestFirst, List.forall_mem_cons, List.forall_mem_singleton, numbers, texts]
  exact ⟨.numbers each (by simp), .texts (by simp)⟩

theorem sortRows_sorts_averages :
    (∀ key ∈ Order.bestFirst.keys, Sortable (key.cells averages)) ∧
      sortRows? none averages = some averages ∧
      (∃ sorted, sortRows? (some .bestFirst) averages = some sorted ∧
        Order.bestFirst.Sorts averages sorted) ∧
      ∀ a b,
        (Order.bestFirst.compareRows a b = .lt ↔
          Order.Precedes .down a b [.field "avg", .field "dept"]) ∧
        (Order.bestFirst.compareRows a b = .gt ↔
          Order.Precedes .down b a [.field "avg", .field "dept"]) :=
  ⟨sortable_averages, sortRows_sorts .bestFirst averages sortable_averages⟩

end CampusQuery
