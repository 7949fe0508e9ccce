import Mathlib
import CampusQuery.Proofs.Execution.Grouping

/-!
# Exact cells

A cell that is no binary64 number is exact: its key tells it from all other exact cells
(`Cell.Exact.key_inj`), and among numbers, or among texts, the order of cells is that of their keys
(`Cell.Exact.compare_eq`). So rows of exact cells that share a group key have the same cells in the
group fields (`Row.Exact.restrict_eq`).
-/

namespace CampusQuery

theorem Cell.ofInt?_eq_some {m : Int} {n : Int64} : ofInt? m = some n ↔ n.toInt = m := by
  rw [ofInt?, Option.ite_none_right_eq_some, Option.some_inj]
  constructor
  · rintro ⟨⟨lower, upper⟩, rfl⟩
    exact Int64.toInt_ofInt_of_le lower (Int.lt_add_one_of_le upper)
  · rintro rfl
    exact ⟨⟨Int64.minValue_le_toInt n, Int64.toInt_le n⟩, Int64.ofInt_toInt n⟩

theorem Cell.ofInt?_eq_none {n : Int} : ofInt? n = none ↔ n < -2 ^ 63 ∨ 2 ^ 63 ≤ n := by
  have range : InRange n ↔ -2 ^ 63 ≤ n ∧ n < 2 ^ 63 :=
    and_congr_right fun _ => Int.le_iff_lt_add_one
  rw [ofInt?, ite_eq_right_iff, range]
  constructor
  · intro outside
    by_contra inside
    exact Option.some_ne_none _ (outside (by omega))
  · intro outside inside
    omega

theorem Binary64.compare?_swap (x y : Binary64) :
    y.compare? x = (x.compare? y).map Ordering.swap := by
  rw [compare?, compare?, Bool.or_comm]
  split
  · rfl
  · rw [Option.map_some, Int.compare_swap]

/-- Two cells are in one order from whichever side they are looked at, a NaN and mixed ones too. -/
theorem Cell.compare_swap (a b : Cell) : b.compare a = (a.compare b).swap := by
  have numbers (x y : Binary64) : (y.compare? x).getD .eq = ((x.compare? y).getD .eq).swap := by
    rw [Binary64.compare?_swap x y]
    cases x.compare? y <;> rfl
  match a, b with
  | .integer m, .integer n => exact (Int.compare_swap m.toInt n.toInt).symm
  | .text s, .text t => exact Std.OrientedOrd.eq_swap
  | .integer m, .float y => exact numbers (.ofInt m.toInt) y
  | .float x, .integer n => exact numbers x (.ofInt n.toInt)
  | .float x, .float y => exact numbers x y
  | .integer _, .text _ | .float _, .text _ | .text _, .integer _ | .text _, .float _ => rfl

/-- An integer or a text. -/
inductive Cell.Exact : Cell → Prop
  | integer (n : Int64) : Exact (.integer n)
  | text (s : String) : Exact (.text s)

namespace Cell.Exact

instance (cell : Cell) : Decidable cell.Exact :=
  match cell with
  | .integer n => .isTrue (.integer n)
  | .float _ => .isFalse nofun
  | .text s => .isTrue (.text s)

theorem key_inj {a b : Cell} (ha : a.Exact) (hb : b.Exact) (same : a.key = b.key) : a = b := by
  cases ha <;> cases hb <;> simp_all [key]

theorem compare_eq {a b : Cell} (ha : a.Exact) (hb : b.Exact) (same : a.isNumber = b.isNumber) :
    a.compare b = Ord.compare a.key b.key := by
  cases ha <;> cases hb <;> cases same
  case integer.integer.refl a b =>
    have keys : Ord.compare (CellKey.integer a) (CellKey.integer b) =
        (Ord.compare 0 0).then ((Ord.compare a.toInt b.toInt).then (Ord.compare "" "")) := rfl
    simp only [key, keys, Std.ReflOrd.compare_self, Ordering.then_eq, Ordering.eq_then,
      Cell.compare]
  case text.text.refl a b =>
    have keys : Ord.compare (CellKey.text a) (CellKey.text b) =
        (Ord.compare 2 2).then ((Ord.compare (0 : Int) 0).then (Ord.compare a b)) := rfl
    simp only [key, keys, Std.ReflOrd.compare_self, Ordering.eq_then, Cell.compare]

theorem eq_integer {cell : Cell} (h : cell.Exact) (number : cell.isNumber = true) :
    ∃ n, cell = .integer n := by
  cases h with
  | integer n => exact ⟨n, rfl⟩
  | text s => cases number

theorem eq_text {cell : Cell} (h : cell.Exact) (number : cell.isNumber = false) :
    ∃ s, cell = .text s := by
  cases h with
  | integer n => cases number
  | text s => exact ⟨s, rfl⟩

end Cell.Exact

/-- The row with the given cells under their names. -/
def Row.ofCells (cells : List (String × Cell)) : Row := .ofList cells

/-- All cells of the row are exact. -/
def Row.Exact (row : Row) : Prop :=
  ∀ (name : String) (cell : Cell), row[name]? = some cell → cell.Exact

instance (row : Row) : Decidable row.Exact :=
  decidable_of_iff (∀ entry ∈ row.toList, entry.2.Exact)
    ⟨fun h name cell found => h (name, cell)
        (Std.ExtTreeMap.mem_toList_iff_getElem?_eq_some.mpr found),
      fun h entry mem => h entry.1 entry.2
        (Std.ExtTreeMap.mem_toList_iff_getElem?_eq_some.mp mem)⟩

/-- The rows hold numbers in the field, or they hold texts, as far as they hold anything. -/
def Uniform (field : String) (rows : List Row) : Prop :=
  ∀ a ∈ rows, ∀ b ∈ rows, ∀ x y, a[field]? = some x → b[field]? = some y → x.isNumber = y.isNumber

theorem Uniform.mono {field : String} {rows some : List Row} (h : Uniform field rows)
    (subset : some ⊆ rows) : Uniform field some :=
  fun a ha b hb => h a (subset ha) b (subset hb)

namespace Row.Exact

variable {a b : Row} (ha : a.Exact) (hb : b.Exact)

include ha hb

theorem getElem?_eq {name : String} (same : a[name]?.map Cell.key = b[name]?.map Cell.key) :
    a[name]? = b[name]? := by
  cases hx : a[name]? with
  | none =>
    rw [hx, Option.map_none, eq_comm, Option.map_eq_none_iff] at same
    exact same.symm
  | some x =>
    rw [hx, Option.map_some, eq_comm, Option.map_eq_some_iff] at same
    obtain ⟨y, hy, key⟩ := same
    rw [hy, (ha name x hx).key_inj (hb name y hy) key.symm]

theorem restrict_eq {fields : List String} (same : a.groupKey fields = b.groupKey fields) :
    a.restrict fields = b.restrict fields := by
  refine Std.ExtTreeMap.ext_getElem? fun name => ?_
  rw [getElem?_restrict, getElem?_restrict]
  split
  · rename_i mem
    exact getElem?_eq ha hb (List.map_inj_left.mp same name mem)
  · rfl

end Row.Exact

end CampusQuery
