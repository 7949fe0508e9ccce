import CampusQuery.Proofs.Binary64.Value
import CampusQuery.Proofs.Cell

/-!
# The identity of cells

A cell stands for a text or for a number, an integer for itself and a binary64 number for its value
(`Cell.numeral?`). Cells have one key exactly if they stand for the same (`Cell.key_eq_iff`): the
key of a binary64 number is an integer exactly if it stands for that integer
(`key_float_eq_integer`), and otherwise the number itself, which then no other number stands beside.

So a count is that of different texts and different numbers (`distinct_eq_card`), and rows fall into
one group exactly if they have the same in every group field (`exists_groupRows_iff`);
`key_identity` puts these together.
-/

namespace CampusQuery

namespace Cell

/-- The number that a cell stands for. -/
def numeral? : Cell → Option Numeral
  | integer n => some (.rational n.toInt)
  | float x => some x.numeral
  | text _ => none

/-- What a cell stands for, a text or a number. -/
def meaning : Cell → String ⊕ Numeral
  | integer n => .inr (.rational n.toInt)
  | float x => .inr x.numeral
  | text s => .inl s

/-- Both cells are the same text, or they stand for the same number. -/
inductive Same : Cell → Cell → Prop
  | text (s : String) : Same (.text s) (.text s)
  | number {a b : Cell} (v : Numeral) (ha : a.numeral? = some v) (hb : b.numeral? = some v) :
    Same a b

theorem key_float_eq_integer {x : Binary64} {n : Int64} :
    (float x).key = .integer n ↔ x.numeral = .rational n.toInt := by
  rw [← Binary64.toInt?_eq_some, key]
  cases x.toInt? with
  | none => simp
  | some m =>
    cases inside : ofInt? m with
    | none =>
      have outside : n.toInt ≠ m := fun same => by
        rw [ofInt?_eq_some.mpr same] at inside
        cases inside
      simpa [inside] using outside.symm
    | some k =>
      obtain rfl := ofInt?_eq_some.mp inside
      simp [inside, Int64.toInt_inj]

theorem key_float (x : Binary64) :
    (∃ n, (float x).key = .integer n) ∨ (float x).key = .float x := by
  rw [key]
  split
  · exact .inl ⟨_, rfl⟩
  · exact .inr rfl

theorem key_float_eq_iff {x y : Binary64} :
    (float x).key = (float y).key ↔ x.numeral = y.numeral := by
  constructor
  · intro same
    rcases key_float x with ⟨n, hx⟩ | hx
    · rw [key_float_eq_integer.mp hx, key_float_eq_integer.mp (same.symm.trans hx)]
    · rcases key_float y with ⟨n, hy⟩ | hy
      · rw [hx, hy] at same
        cases same
      · rw [hx, hy] at same
        cases same
        rfl
  · intro same
    rcases Binary64.numeral_inj.mp same with rfl | ⟨hx, hy⟩
    · rfl
    · have whole {z : Binary64} (zero : z.units = 0) : (float z).key = .integer 0 :=
        key_float_eq_integer.mpr (Binary64.numeral_eq_intCast.mpr
          ⟨Binary64.isFinite_of_units_eq_zero zero, by rw [zero]; rfl⟩)
      rw [whole hx, whole hy]

theorem key_eq_key {a b : Cell} : a.key = b.key ↔ a.meaning = b.meaning := by
  match a, b with
  | text s, text t => simp [key, meaning]
  | integer m, integer n => simp [key, meaning, Int64.toInt_inj]
  | float x, float y => simp [key_float_eq_iff, meaning]
  | float x, integer n =>
    rw [meaning, meaning, Sum.inr.injEq]
    exact key_float_eq_integer
  | integer n, float x =>
    rw [meaning, meaning, Sum.inr.injEq, eq_comm, @eq_comm _ (Numeral.rational _)]
    exact key_float_eq_integer
  | text s, integer n | integer n, text s => simp [key, meaning]
  | text s, float x | float x, text s =>
    rcases key_float x with ⟨n, hx⟩ | hx <;> rw [hx] <;> simp [key, meaning]

theorem text?_eq_some {a : Cell} {s : String} : a.text? = some s ↔ a = .text s := by
  cases a <;> simp [text?]

theorem meaning_eq_inl {a : Cell} {s : String} : a.meaning = .inl s ↔ a = .text s := by
  cases a <;> simp [meaning]

theorem meaning_eq_inr {a : Cell} {v : Numeral} : a.meaning = .inr v ↔ a.numeral? = some v := by
  cases a <;> simp [meaning, numeral?]

theorem same_iff {a b : Cell} : a.Same b ↔ a.meaning = b.meaning := by
  constructor
  · rintro (s | ⟨v, ha, hb⟩)
    · rfl
    · rw [meaning_eq_inr.mpr ha, meaning_eq_inr.mpr hb]
  · intro same
    cases ha : a.meaning with
    | inl s =>
      rw [meaning_eq_inl.mp ha, meaning_eq_inl.mp (same.symm.trans ha)]
      exact .text s
    | inr v => exact .number v (meaning_eq_inr.mp ha) (meaning_eq_inr.mp (same.symm.trans ha))

theorem key_eq_iff {a b : Cell} : a.key = b.key ↔ a.Same b := key_eq_key.trans same_iff.symm

end Cell

namespace Aggregate

theorem distinct_eq_card_keys (cells : List Cell) :
    distinct cells = (cells.map Cell.key).toFinset.card := by
  have same : Std.ExtTreeSet.ofList (cells.map Cell.key) =
      Std.ExtTreeSet.ofList (cells.map Cell.key).eraseDups :=
    Std.ExtTreeSet.ext_mem fun key => by simp [Std.ExtTreeSet.mem_ofList]
  rw [distinct, same, Std.ExtTreeSet.size_ofList, length_eraseDups]
  exact (nodup_eraseDups _).imp fun ne => by simpa using ne

theorem distinct_eq_card (cells : List Cell) :
    distinct cells = (cells.filterMap Cell.text?).toFinset.card +
      (cells.filterMap Cell.numeral?).toFinset.card := by
  rw [distinct_eq_card_keys, card_image_congr (fun a b => Cell.key_eq_key) cells,
    ← Finset.card_toLeft_add_card_toRight]
  congr 2
  · ext s
    simp [Cell.meaning_eq_inl, Cell.text?_eq_some]
  · ext v
    simp [Cell.meaning_eq_inr]

end Aggregate

theorem groupKey_eq_iff {fields : List String} {a b : Row} :
    a.groupKey fields = b.groupKey fields ↔
      ∀ name ∈ fields, Option.Rel Cell.Same a[name]? b[name]? := by
  rw [Row.groupKey, Row.groupKey, List.map_inj_left]
  refine forall₂_congr fun name _ => ?_
  cases a[name]? <;> cases b[name]? <;> simp [Cell.key_eq_iff]

theorem exists_groupRows_iff {fields : List String} {rows : List Row} {a b : Row} :
    (∃ members ∈ groupRows fields rows, a ∈ members ∧ b ∈ members) ↔
      a ∈ rows ∧ b ∈ rows ∧ a.groupKey fields = b.groupKey fields := by
  constructor
  · rintro ⟨members, group, ha, hb⟩
    obtain ⟨row, _, rfl⟩ := mem_groupRows.mp group
    simp only [List.mem_filter, decide_eq_true_eq] at ha hb
    exact ⟨ha.1, hb.1, ha.2.trans hb.2.symm⟩
  · rintro ⟨ha, hb, same⟩
    exact ⟨_, mem_groupRows.mpr ⟨a, ha, rfl⟩, by simpa using ha, by simpa [same] using hb⟩

/-- Cells have one key exactly if they are the same text or stand for the same number; counts and
groups go by that. -/
theorem key_identity :
    (∀ a b : Cell, a.key = b.key ↔ a.Same b) ∧
      (∀ cells : List Cell, Aggregate.count.eval cells =
        .integer (.ofNat ((cells.filterMap Cell.text?).toFinset.card +
          (cells.filterMap Cell.numeral?).toFinset.card))) ∧
      ∀ (fields : List String) (rows : List Row) (a b : Row),
        (∃ members ∈ groupRows fields rows, a ∈ members ∧ b ∈ members) ↔
          a ∈ rows ∧ b ∈ rows ∧ ∀ name ∈ fields, Option.Rel Cell.Same a[name]? b[name]? := by
  refine ⟨fun a b => Cell.key_eq_iff, fun cells => ?_, fun fields rows a b => ?_⟩
  · rw [Aggregate.eval, Aggregate.distinct_eq_card]
  · rw [exists_groupRows_iff, groupKey_eq_iff]

end CampusQuery
