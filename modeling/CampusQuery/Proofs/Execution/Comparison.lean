import CampusQuery.Proofs.Binary64.Rounding
import CampusQuery.Proofs.Execution.Identity

/-!
# The order of numbers and their identity

Beside a binary64 number an integer is compared as the nearest one (`Cell.compare_eq`). Rounding
keeps the order of integers, so a number that does not come after another one is not rounded to more
(`rounded_le_of_compare`).

`compare_laws` says how far the order of numbers is a total one and agrees with their keys. It is
antisymmetric. It is transitive but for two integers, the greater one first, that are both rounded
to the number between them. Numbers are level if they have one key, and else only if one is rounded
to the other. Rounding changes integers beyond 2⁵³ only; `compare_not_total` is a case of it.
-/

namespace CampusQuery.Cell

/-- A number that is no NaN. -/
inductive Number : Cell → Prop
  | integer (n : Int64) : Number (.integer n)
  | float {x : Binary64} (h : x.isNaN = false) : Number (.float x)

/-- The cell is an integer that is no binary64 number, and the other cell is the nearest one. -/
def RoundsTo (a b : Cell) : Prop :=
  ∃ n : Int64, 2 ^ 53 < n.toInt.natAbs ∧ a = .integer n ∧ b = .float (.ofInt n.toInt) ∧
    a.key ≠ b.key

/-- The units of a number that is compared with a binary64 number. -/
def rounded : Cell → Int
  | integer n => (Binary64.ofInt n.toInt).units
  | float x => x.units
  | text _ => 0

/-- What is compared of a number beside another one. -/
def beside : Cell → Cell → Int
  | integer n, integer _ => n.toInt
  | a, _ => a.rounded

theorem integers_or_beside (a b : Cell) :
    (∃ m n, a = integer m ∧ b = integer n) ∨ a.beside b = a.rounded ∧ b.beside a = b.rounded := by
  cases a with
  | integer m =>
    cases b with
    | integer n => exact .inl ⟨m, n, rfl, rfl⟩
    | _ => exact .inr ⟨rfl, rfl⟩
  | _ => cases b <;> exact .inr ⟨rfl, rfl⟩

theorem compare_integer (m n : Int64) :
    (integer m).compare (integer n) = Ord.compare m.toInt n.toInt := rfl

theorem compare_eq {a b : Cell} (ha : a.Number) (hb : b.Number) :
    a.compare b = Ord.compare (a.beside b) (b.beside a) := by
  have read {x y : Binary64} (hx : x.isNaN = false) (hy : y.isNaN = false) :
      (x.compare? y).getD .eq = Ord.compare x.units y.units := by
    rw [Binary64.compare?_eq_some hx hy, Option.getD_some]
  cases ha with
  | integer m =>
    cases hb with
    | integer n => rfl
    | float hy => exact read (Binary64.isNaN_ofInt m.toInt) hy
  | float hx =>
    cases hb with
    | integer n => exact read hx (Binary64.isNaN_ofInt n.toInt)
    | float hy => exact read hx hy

theorem rounded_le_of_compare {a b : Cell} (ha : a.Number) (hb : b.Number)
    (le : a.compare b ≠ .gt) : a.rounded ≤ b.rounded := by
  rw [compare_eq ha hb, ne_eq, Int.compare_eq_gt, not_lt] at le
  cases ha with
  | integer m =>
    cases hb with
    | integer n => exact Binary64.units_ofInt_mono le
    | float hy => exact le
  | float hx => cases hb <;> exact le

/-- A number comes after one that it is not rounded to more than only if both are integers. -/
theorem exists_integer_of_compare {a b : Cell} (ha : a.Number) (hb : b.Number)
    (gt : a.compare b = .gt) (le : a.rounded ≤ b.rounded) :
    ∃ m n : Int64, n.toInt < m.toInt ∧ a = .integer m ∧ b = .integer n := by
  rw [compare_eq ha hb, Int.compare_eq_gt] at gt
  cases ha with
  | integer m =>
    cases hb with
    | integer n => exact ⟨m, n, gt, rfl, rfl⟩
    | float hy => exact absurd le (Int.not_le.mpr gt)
  | float hx => cases hb <;> exact absurd le (Int.not_le.mpr gt)

theorem key_integer_eq {n : Int64} {x : Binary64} :
    (integer n).key = (float x).key ↔ x.isFinite = true ∧ x.units = n.toInt * Binary64.one := by
  rw [eq_comm, ← Binary64.numeral_eq_intCast]
  exact key_float_eq_integer

theorem roundsTo_of_units {n : Int64} {x : Binary64}
    (same : (Binary64.ofInt n.toInt).units = x.units) (other : (integer n).key ≠ (float x).key) :
    (integer n).RoundsTo (float x) := by
  have nonzero : n.toInt ≠ 0 := fun zero => by
    have hx : x.units = 0 := same.symm.trans (Binary64.units_ofInt_eq_zero.mpr zero)
    refine other (key_integer_eq.mpr ⟨Binary64.isFinite_of_units_eq_zero hx, ?_⟩)
    rw [hx, zero, Int.zero_mul]
  obtain rfl := Binary64.eq_ofInt_of_units same nonzero
  refine ⟨n, Nat.lt_of_not_le fun le => other (key_integer_eq.mpr ?_), rfl, rfl, other⟩
  exact ⟨Binary64.isFinite_ofInt_of_le le, Binary64.units_ofInt_of_le le⟩

theorem compare_integer_float {n : Int64} {x : Binary64} (hx : x.isNaN = false) :
    (integer n).compare (float x) = .eq ↔
      (integer n).key = (float x).key ∨ (integer n).RoundsTo (float x) := by
  rw [compare_eq (.integer n) (.float hx), Int.compare_eq_eq]
  constructor
  · exact fun same => or_iff_not_imp_left.mpr (roundsTo_of_units same)
  · rintro (same | ⟨m, _, ⟨⟩, ⟨⟩, _⟩)
    · exact Binary64.units_ofInt_of_units hx (key_integer_eq.mp same).2
    · rfl

/-! ## The laws -/

theorem compare_eq_iff {a b : Cell} (ha : a.Number) (hb : b.Number) :
    a.compare b = .eq ↔ a.key = b.key ∨ a.RoundsTo b ∨ b.RoundsTo a := by
  have float {x : Binary64} {c : Cell} : ¬ (Cell.float x).RoundsTo c := nofun
  have integer {c : Cell} {n : Int64} : ¬ c.RoundsTo (.integer n) := nofun
  cases ha with
  | integer m =>
    cases hb with
    | integer n =>
      rw [compare_eq (.integer m) (.integer n), Int.compare_eq_eq]
      simp [beside, key, Int64.toInt_inj, integer]
    | float hy => simp [compare_integer_float hy, float]
  | @float x hx =>
    cases hb with
    | integer n =>
      rw [compare_swap (.integer n) (.float x), Ordering.swap_eq_eq, compare_integer_float hx]
      simp [float, eq_comm]
    | float hy =>
      rw [compare_eq (.float hx) (.float hy), Int.compare_eq_eq]
      simp [beside, rounded, key_float_eq_iff, Binary64.numeral_eq_numeral, float]

theorem compare_trans_iff {a b c : Cell} (ha : a.Number) (hb : b.Number) (hc : c.Number) :
    a.compare b ≠ .gt ∧ b.compare c ≠ .gt ∧ a.compare c = .gt ↔
      ∃ m n : Int64, n.toInt < m.toInt ∧ Binary64.ofInt m.toInt = .ofInt n.toInt ∧
        a = .integer m ∧ b = .float (.ofInt m.toInt) ∧ c = .integer n := by
  constructor
  · rintro ⟨hab, hbc, hac⟩
    have le := rounded_le_of_compare ha hb hab
    have le' := rounded_le_of_compare hb hc hbc
    obtain ⟨m, n, less, rfl, rfl⟩ := exists_integer_of_compare ha hc hac (le.trans le')
    have ge : (Binary64.ofInt n.toInt).units ≤ (Binary64.ofInt m.toInt).units :=
      Binary64.units_ofInt_mono less.le
    cases hb with
    | integer k =>
      rw [compare_integer, ne_eq, Int.compare_eq_gt, not_lt] at hab hbc
      exact absurd less (Int.not_lt.mpr (hab.trans hbc))
    | @float x hx =>
      have hm : (Binary64.ofInt m.toInt).units = x.units := le_antisymm le (le'.trans ge)
      have hn : (Binary64.ofInt n.toInt).units = x.units := le_antisymm (ge.trans le) le'
      have zero : m.toInt = 0 ↔ n.toInt = 0 := by
        rw [← @Binary64.units_ofInt_eq_zero m.toInt, ← @Binary64.units_ofInt_eq_zero n.toInt,
          hm, hn]
      have rm := Binary64.eq_ofInt_of_units hm (by omega)
      have rn := Binary64.eq_ofInt_of_units hn (by omega)
      exact ⟨m, n, less, rm.trans rn.symm, rfl, rm ▸ rfl, rfl⟩
  · rintro ⟨m, n, less, same, rfl, rfl, rfl⟩
    have level (k : Int64) (hk : Binary64.ofInt m.toInt = .ofInt k.toInt) :
        (integer k).compare (float (.ofInt m.toInt)) = .eq := by
      rw [compare_eq (.integer k) hb, Int.compare_eq_eq, hk]
      rfl
    have level' := compare_swap (integer n) (float (.ofInt m.toInt))
    rw [level n same] at level'
    refine ⟨by rw [level m rfl]; nofun, by rw [level']; nofun, ?_⟩
    rw [compare_eq ha hc, Int.compare_eq_gt]
    exact less

/-- The order of numbers is antisymmetric, transitive but for integers that are rounded to one
number, and level for one key or for an integer and the number that it is rounded to. -/
theorem compare_laws {a b c : Cell} (ha : a.Number) (hb : b.Number) (hc : c.Number) :
    b.compare a = (a.compare b).swap ∧
      (a.compare b ≠ .gt ∧ b.compare c ≠ .gt ∧ a.compare c = .gt ↔
        ∃ m n : Int64, n.toInt < m.toInt ∧ Binary64.ofInt m.toInt = .ofInt n.toInt ∧
          a = .integer m ∧ b = .float (.ofInt m.toInt) ∧ c = .integer n) ∧
      (a.compare b = .eq ↔ a.key = b.key ∨ a.RoundsTo b ∨ b.RoundsTo a) :=
  ⟨compare_swap a b, compare_trans_iff ha hb hc, compare_eq_iff ha hb⟩

/-- The least positive integer that is no binary64 number, 2⁵³ + 1. -/
def leastInexact : Int64 := 9007199254740993

theorem compare_laws_leastInexact :
    (integer leastInexact).Number ∧ (float (.ofInt leastInexact.toInt)).Number ∧
      (integer (leastInexact - 1)).Number ∧
      (float (.ofInt leastInexact.toInt)).compare (integer leastInexact) =
        ((integer leastInexact).compare (float (.ofInt leastInexact.toInt))).swap ∧
      ((integer leastInexact).compare (float (.ofInt leastInexact.toInt)) ≠ .gt ∧
        (float (.ofInt leastInexact.toInt)).compare (integer (leastInexact - 1)) ≠ .gt ∧
        (integer leastInexact).compare (integer (leastInexact - 1)) = .gt) ∧
      ((integer leastInexact).compare (float (.ofInt leastInexact.toInt)) = .eq ↔
        (integer leastInexact).key = (float (.ofInt leastInexact.toInt)).key ∨
          (integer leastInexact).RoundsTo (float (.ofInt leastInexact.toInt)) ∨
          (float (.ofInt leastInexact.toInt)).RoundsTo (integer leastInexact)) := by
  have ha := Number.integer leastInexact
  have hb := Number.float (Binary64.isNaN_ofInt leastInexact.toInt)
  have hc := Number.integer (leastInexact - 1)
  obtain ⟨swap, trans, level⟩ := compare_laws ha hb hc
  exact ⟨ha, hb, hc, swap, trans.mpr ⟨leastInexact, leastInexact - 1, by decide, by decide +kernel,
    rfl, rfl, rfl⟩, level⟩

/-- The order is not a total one: an integer that is no binary64 number is level with the number
that it is rounded to, and so is the integer before it. -/
theorem compare_not_total : ¬ ∀ a b c : Cell, a.Number → b.Number → c.Number →
    b.compare a = (a.compare b).swap ∧
      (a.compare b ≠ .gt → b.compare c ≠ .gt → a.compare c ≠ .gt) ∧
      (a.compare b = .eq ↔ a.key = b.key) := by
  intro total
  have laws := total (.integer leastInexact) (.float (.ofInt leastInexact.toInt))
    (.integer (leastInexact - 1)) (.integer _) (.float (Binary64.isNaN_ofInt _)) (.integer _)
  revert laws
  decide +kernel

end CampusQuery.Cell
