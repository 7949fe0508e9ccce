import CampusQuery.Proofs.Execution.Comparison
import CampusQuery.Proofs.Query.Meaning
import CampusQuery.ResultRow

/-!
# Filters and groups

A filter sees of a number what it is rounded to, which numbers with one key have in common
(`Cell.numeral_toBinary64?`). So a filter that compares no other fields than those that rows are
grouped by does not tell the members of a group apart (`Filter.Among.accepts_eq`), and
`transformRows_select` is that it makes no difference whether the rows or the groups are filtered.

The converse does not hold: an equality with the number of a group accepts whatever is rounded to
the same binary64 number. `select_equal` says that it keeps the members of the group and besides
them exactly the rows whose number merges with that of the group (`Cell.Merges`), which takes an
integer beyond 2⁵³ that is no binary64 number. `select_equal_inexact` is a case of it.
-/

namespace CampusQuery

/-- A test that goes by images has the same outcome where the images are the same. -/
theorem any_of_map_eq {α β : Type} {f : α → β} {test : α → Bool}
    (image : ∀ x y, f x = f y → test x = test y) {a b : Option α} (same : a.map f = b.map f) :
    a.any test = b.any test := by
  cases a with
  | none => rw [Option.map_eq_none_iff.mp same.symm]
  | some x =>
    obtain ⟨y, rfl, hy⟩ := Option.map_eq_some_iff.mp same.symm
    exact image x y hy.symm

theorem Binary64.compare?_congr {x y : Binary64} (same : x.numeral = y.numeral) (z : Binary64) :
    x.compare? z = y.compare? z := by
  rcases numeral_inj.mp same with rfl | ⟨hx, hy⟩
  · rfl
  · have number {v : Binary64} (zero : v.units = 0) : v.isNaN = false :=
      (isFinite_iff.mp (isFinite_of_units_eq_zero zero)).1
    rw [compare?, compare?, number hx, number hy, hx, hy]

namespace Cell

/-- Numbers with one key are rounded to the same. -/
theorem numeral_toBinary64? {a b : Cell} (same : a.key = b.key) :
    a.toBinary64?.map Binary64.numeral = b.toBinary64?.map Binary64.numeral := by
  have mixed {n : Int64} {x : Binary64} (same : (integer n).key = (float x).key) :
      (Binary64.ofInt n.toInt).numeral = x.numeral := by
    obtain ⟨finite, units⟩ := key_integer_eq.mp same
    exact Binary64.numeral_eq_numeral.mpr
      (Binary64.units_ofInt_of_units (Binary64.isFinite_iff.mp finite).1 units)
  match a, b with
  | integer m, integer n =>
    cases same
    rfl
  | integer n, float x => exact congrArg some (mixed same)
  | float x, integer n => exact congrArg some (mixed same.symm).symm
  | float x, float y => exact congrArg some (key_float_eq_iff.mp same)
  | text s, text t => rfl
  | text s, integer n | integer n, text s => cases same
  | text s, float x | float x, text s =>
    rcases key_float x with ⟨n, hx⟩ | hx <;> rw [hx] at same <;> cases same

theorem text?_of_key {a b : Cell} (same : a.key = b.key) : a.text? = b.text? := by
  refine Option.ext fun s => ?_
  rw [text?_eq_some, text?_eq_some, ← meaning_eq_inl, ← meaning_eq_inl, key_eq_key.mp same]

end Cell

/-! ## Filters on the group fields -/

/-- All comparisons of the filter are of the given fields. -/
inductive Filter.Among (fields : List String) : Filter → Prop
  | all : Among fields .all
  | and {children : List Filter} (each : ∀ child ∈ children, Among fields child) :
    Among fields (.and children)
  | or {children : List Filter} (each : ∀ child ∈ children, Among fields child) :
    Among fields (.or children)
  | not {child : Filter} (h : Among fields child) : Among fields (.not child)
  | compare (comparison : Comparison) {field : String} (literal : Binary64)
    (mem : field ∈ fields) : Among fields (.compare comparison field literal)
  | is {field : String} (pattern : Pattern) (mem : field ∈ fields) :
    Among fields (.is field pattern)

/-- A filter on the group fields accepts all rows with a group key or none of them. -/
theorem Filter.Among.accepts_eq {fields : List String} {filter : Filter} (h : filter.Among fields)
    {a b : Row} (same : a.groupKey fields = b.groupKey fields) :
    filter.accepts a = filter.accepts b := by
  have keys : ∀ name ∈ fields, a[name]?.map Cell.key = b[name]?.map Cell.key :=
    List.map_inj_left.mp same
  induction h with
  | all => simp only [accepts]
  | and each ih =>
    simp only [accepts, acceptsEvery_eq_all]
    rw [Bool.eq_iff_iff, List.all_eq_true, List.all_eq_true]
    exact forall₂_congr fun child mem => by rw [ih child mem]
  | or each ih =>
    simp only [accepts, acceptsSome_eq_any]
    rw [Bool.eq_iff_iff, List.any_eq_true, List.any_eq_true]
    exact exists_congr fun child => and_congr_right fun mem => by rw [ih child mem]
  | not h ih => simp only [accepts, ih]
  | compare comparison literal mem =>
    simp only [accepts, Option.any_bind]
    refine any_of_map_eq (fun x y same => ?_) (keys _ mem)
    refine any_of_map_eq (fun u v same => ?_) (Cell.numeral_toBinary64? same)
    rw [Comparison.holds, Comparison.holds, Binary64.compare?_congr same]
  | is pattern mem =>
    simp only [accepts, Option.any_bind]
    refine any_of_map_eq (fun x y same => ?_) (keys _ mem)
    rw [Function.comp, Function.comp, Cell.text?_of_key same]

theorem Row.groupKey_restrict (row : Row) (fields : List String) :
    (row.restrict fields).groupKey fields = row.groupKey fields := by
  refine List.map_congr_left fun name mem => ?_
  rw [getElem?_restrict, if_pos mem]

/-- Groups are kept whole by a filter that does not tell rows with one group key apart. -/
theorem groupRows_filter {fields : List String} {p : Row → Bool}
    (level : ∀ a b : Row, a.groupKey fields = b.groupKey fields → p a = p b) (rows : List Row) :
    groupRows fields (rows.filter p) =
      (groupRows fields rows).filter fun members => members.head?.any p := by
  have group (row : Row) (mem : row ∈ rows) :
      (rows.filter (Row.groupKey fields · = row.groupKey fields)).head?.any p = p row := by
    have own : row ∈ rows.filter (Row.groupKey fields · = row.groupKey fields) :=
      List.mem_filter.mpr ⟨mem, decide_eq_true rfl⟩
    obtain ⟨first, rest, members⟩ := List.exists_cons_of_ne_nil (List.ne_nil_of_mem own)
    have same : first ∈ rows.filter (Row.groupKey fields · = row.groupKey fields) :=
      members ▸ List.mem_cons_self
    rw [members, List.head?_cons, Option.any_some]
    exact level first row (of_decide_eq_true (List.mem_filter.mp same).2)
  have keys : (rows.filter p).map (Row.groupKey fields) =
      (rows.map (Row.groupKey fields)).filter fun key =>
        (rows.filter (Row.groupKey fields · = key)).head?.any p := by
    rw [List.filter_map]
    exact congrArg _ (List.filter_congr fun row mem => (group row mem).symm)
  rw [groupRows_eq, groupRows_eq, keys, eraseDups_filter, List.filter_map]
  refine List.map_congr_left fun key mem => ?_
  obtain ⟨mem, whole⟩ := List.mem_filter.mp mem
  obtain ⟨row, hr, rfl⟩ := List.mem_map.mp (List.mem_eraseDups.mp mem)
  rw [group row hr] at whole
  rw [List.filter_filter]
  refine List.filter_congr fun other _ => ?_
  by_cases same : other.groupKey fields = row.groupKey fields
  · simp [same, (level other row same).trans whole]
  · simp [same]

/-- The cells that a row has in fields. -/
def WorkingRow.fields : WorkingRow → Row
  | source row => row
  | group fields _ => fields

/-- Filtering the rows by group fields is filtering the groups. -/
theorem transformRows_select (t : Transformation) {filter : Filter} (among : filter.Among t.group)
    (rows : List Row) :
    transformRows (some t) (filter.select rows) =
      (transformRows (some t) rows).filter fun working => filter.accepts working.fields := by
  rw [transformRows, transformRows, Transformation.run, Transformation.run, Filter.select_eq_filter,
    groupRows_filter (fun _ _ => among.accepts_eq), List.filter_map]
  refine congrArg _ (List.filter_congr fun members mem => ?_)
  obtain ⟨first, rest, rfl⟩ := List.exists_cons_of_ne_nil (ne_nil_of_mem_groupRows mem)
  exact among.accepts_eq (first.groupKey_restrict t.group).symm

/-- Rows without an average and with three of them, two of which are the same number. -/
def Row.averages : List Row :=
  [.ofCells [("dept", .text "math")], .ofCells [("dept", .text "cpsc"), ("avg", .integer 90)],
    .ofCells [("dept", .text "cpsc"), ("avg", .integer 80)],
    .ofCells [("dept", .text "math"), ("avg", .float (.ofInt 90))]]

/-- How many departments have each average. -/
def Transformation.departments : Transformation := ⟨["avg"], [⟨"departments", .count, "dept"⟩]⟩

/-- Not below 85, as is a row without an average. -/
def Filter.notBelow : Filter := .not (.compare .less "avg" (.ofInt 85))

theorem transformRows_select_notBelow :
    Filter.notBelow.Among ["avg"] ∧
      transformRows (some .departments) (Filter.notBelow.select Row.averages) =
        (transformRows (some .departments) Row.averages).filter fun working =>
          Filter.notBelow.accepts working.fields :=
  have among : Filter.notBelow.Among ["avg"] := .not (.compare .less (.ofInt 85) (by simp))
  ⟨among, transformRows_select .departments among Row.averages⟩

/-! ## Equality with the number of a group -/

namespace Cell

/-- An integer or a finite binary64 number. -/
inductive Finite : Cell → Prop
  | integer (n : Int64) : Finite (.integer n)
  | float {x : Binary64} (h : x.isFinite = true) : Finite (.float x)

/-- The cell is the binary64 number or is rounded to it. -/
def Nears (a : Cell) (x : Binary64) : Prop := a.key = (float x).key ∨ a.RoundsTo (float x)

/-- The two cells are different numbers, but there is one binary64 number for both. -/
def Merges (a b : Cell) : Prop := a.key ≠ b.key ∧ ∃ x, a.Nears x ∧ b.Nears x

theorem nears_iff {a : Cell} {x : Binary64} :
    a.Nears x ↔ a.toBinary64?.map Binary64.numeral = some x.numeral := by
  constructor
  · rintro (same | ⟨n, _, rfl, ⟨⟩, _⟩)
    · exact numeral_toBinary64? same
    · rfl
  · intro same
    cases a with
    | integer n =>
      have units := Binary64.numeral_eq_numeral.mp (Option.some.inj same)
      exact or_iff_not_imp_left.mpr (roundsTo_of_units units)
    | float y => exact .inl (key_float_eq_iff.mpr (Option.some.inj same))
    | text s => cases same

/-- One of two numbers that merge is an integer beyond 2⁵³. -/
theorem Merges.exists_large {a b : Cell} (h : a.Merges b) :
    ∃ n : Int64, 2 ^ 53 < n.toInt.natAbs ∧ (a = .integer n ∨ b = .integer n) := by
  obtain ⟨other, x, hx, hy⟩ := h
  rcases hx with hx | ⟨n, large, rfl, _⟩
  · rcases hy with hy | ⟨n, large, rfl, _⟩
    · exact absurd (hx.trans hy.symm) other
    · exact ⟨n, large, .inr rfl⟩
  · exact ⟨n, large, .inl rfl⟩

/-- There is one binary64 number for cells that are the same number, or merge. -/
theorem nears_iff_of_nears {a b : Cell} {x : Binary64} (hb : b.Nears x) :
    a.Nears x ↔ a.key = b.key ∨ a.Merges b := by
  constructor
  · exact fun ha => or_iff_not_imp_left.mpr fun other => ⟨other, x, ha, hb⟩
  · rw [nears_iff] at hb ⊢
    rintro (same | ⟨_, y, ha, hb'⟩)
    · rw [numeral_toBinary64? same, hb]
    · rw [nears_iff] at ha hb'
      rw [ha, ← hb', hb]

end Cell

/-- The conditions that the field is equal to the number of a cell. -/
def Query.equality (dataset : Descriptor) (field : Field) (cell : Cell) : List (String × Json) :=
  [("EQ", .object [(dataset.id ++ "_" ++ field.name, .ofCell cell)])]

namespace Query

section Equality

variable {dataset : Descriptor} (hid : '_' ∉ dataset.id.toList) (field : Field)
  (found : field ∈ dataset.kind.fields) (numeric : field.type = .numeric)

include hid found numeric

theorem readConditions_number (n : Json.Number) :
    readConditions dataset [("EQ", .object [(dataset.id ++ "_" ++ field.name, .number n)])] =
      .ok (.compare .equal field.name n.toBinary64) :=
  (readFilter_eq_ok hid).mpr (.compare .equal n ⟨found, rfl⟩ numeric)

/-- The number of a cell is read back as what the cell is rounded to. -/
theorem readConditions_equality {cell : Cell} (finite : cell.Finite) :
    ∃ x, x.isNaN = false ∧ cell.toBinary64? = some x ∧
      readConditions dataset (equality dataset field cell) =
        .ok (.compare .equal field.name x) := by
  cases finite with
  | integer n =>
    exact ⟨_, Binary64.isNaN_ofInt n.toInt, rfl,
      readConditions_number hid field found numeric (.integer n.toInt)⟩
  | @float x h =>
    refine ⟨x, (Binary64.isFinite_iff.mp h).1, rfl, ?_⟩
    rw [equality, Json.ofCell, if_pos h]
    exact readConditions_number hid field found numeric (.float x)

end Equality

end Query

theorem Binary64.same_iff {x y : Binary64} (number : y.isNaN = false) :
    x.Same y ↔ x.numeral = y.numeral := by
  rw [numeral_eq_numeral]
  refine ⟨fun same => same.2.2, fun units => ⟨?_, number, units⟩⟩
  rcases eq_or_zero_of_units_eq units with rfl | ⟨zero, _⟩
  · exact number
  · exact (isFinite_iff.mp (isFinite_of_units_eq_zero zero)).1

theorem Filter.accepts_equal {name : String} {x : Binary64} (number : x.isNaN = false) (row : Row) :
    (compare .equal name x).accepts row = true ↔
      ∃ other, row[name]? = some other ∧ other.Nears x := by
  simp only [accepts, Option.any_bind, Option.any_eq_true, Function.comp_apply,
    Comparison.holds_equal, Binary64.same_iff number, Cell.nears_iff, Option.map_eq_some_iff]

/-- The members of a group by one field are the rows with the number that the group shows. -/
theorem eq_of_collapse {t : Transformation} {name : String} (single : t.group = [name])
    {rows members : List Row} (group : members ∈ groupRows t.group rows) {cell : Cell}
    (own : (t.collapse members).get? (.field name) = some cell) :
    (∃ row ∈ rows, row[name]? = some cell) ∧
      members = rows.filter fun row => row[name]?.map Cell.key = some cell.key := by
  obtain ⟨row, _, rfl⟩ := mem_groupRows.mp group
  obtain ⟨first, rest, is⟩ := List.exists_cons_of_ne_nil (ne_nil_of_mem_groupRows group)
  have mem : first ∈ rows.filter (Row.groupKey t.group · = row.groupKey t.group) :=
    is ▸ List.mem_cons_self
  obtain ⟨mem, shared⟩ := List.mem_filter.mp mem
  rw [is, t.get?_collapse_field, if_pos (by simp [single])] at own
  refine ⟨⟨first, mem, own⟩, List.filter_congr fun other _ => ?_⟩
  rw [← of_decide_eq_true shared]
  simp [single, Row.groupKey, own]

/-- An equality with the number of a group accepts its members and the rows whose number merges with
it. It keeps the group exactly if there are no such rows, as there are not without an integer beyond
2⁵³. -/
theorem select_equal {dataset : Descriptor} (hid : '_' ∉ dataset.id.toList) {field : Field}
    (found : field ∈ dataset.kind.fields) (numeric : field.type = .numeric) {rows : List Row}
    (finite : ∀ row ∈ rows, ∀ cell, row[field.name]? = some cell → cell.Finite)
    {t : Transformation} (single : t.group = [field.name]) {members : List Row}
    (group : members ∈ groupRows t.group rows) {cell : Cell}
    (own : (t.collapse members).get? (.field field.name) = some cell) :
    ∃ filter, Query.readConditions dataset (Query.equality dataset field cell) = .ok filter ∧
      (∀ row ∈ rows, filter.accepts row = true ↔
        row ∈ members ∨ ∃ other, row[field.name]? = some other ∧ other.Merges cell) ∧
      (filter.select rows = members ↔
        ∀ row ∈ rows, ∀ other, row[field.name]? = some other → ¬ other.Merges cell) ∧
      ((∀ row ∈ rows, ∀ n, row[field.name]? = some (.integer n) → n.toInt.natAbs ≤ 2 ^ 53) →
        filter.select rows = members) := by
  obtain ⟨⟨first, hf, shown⟩, is⟩ := eq_of_collapse single group own
  obtain ⟨x, number, rounded, read⟩ :=
    Query.readConditions_equality hid field found numeric (finite first hf cell shown)
  have near : cell.Nears x := Cell.nears_iff.mpr (by rw [rounded, Option.map_some])
  have mem (row : Row) (hr : row ∈ rows) :
      row ∈ members ↔ ∃ other, row[field.name]? = some other ∧ other.key = cell.key := by
    rw [is, List.mem_filter, decide_eq_true_eq, Option.map_eq_some_iff, and_iff_right hr]
  have accepts (row : Row) (hr : row ∈ rows) :
      (Filter.compare .equal field.name x).accepts row = true ↔
        row ∈ members ∨ ∃ other, row[field.name]? = some other ∧ other.Merges cell := by
    simp only [Filter.accepts_equal number, mem row hr, Cell.nears_iff_of_nears near, and_or_left,
      exists_or]
  have whole : (Filter.compare .equal field.name x).select rows = members ↔
      ∀ row ∈ rows, ∀ other, row[field.name]? = some other → ¬ other.Merges cell := by
    constructor
    · intro same row hr other has merges
      have kept : row ∈ members :=
        same ▸ List.mem_filter.mpr ⟨hr, (accepts row hr).mpr (.inr ⟨other, has, merges⟩)⟩
      obtain ⟨_, has', key⟩ := (mem row hr).mp kept
      exact merges.1 (Option.some.inj (has.symm.trans has') ▸ key)
    · intro apart
      rw [is, Filter.select_eq_filter]
      refine List.filter_congr fun row hr => ?_
      rw [Bool.eq_iff_iff, accepts row hr, is, List.mem_filter, and_iff_right hr]
      exact or_iff_left fun ⟨other, has, merges⟩ => apart row hr other has merges
  refine ⟨_, read, accepts, whole, fun small => whole.mpr fun row hr other has merges => ?_⟩
  obtain ⟨n, large, rfl | rfl⟩ := merges.exists_large
  · exact absurd (small row hr n has) (Nat.not_le.mpr large)
  · exact absurd (small first hf n shown) (Nat.not_le.mpr large)

/-- A row with the least positive integer that is no binary64 number. -/
def Row.inexact : Row := .ofCells [("avg", .integer Cell.leastInexact)]

/-- The row with the integer before it, and a row without a number. -/
def Row.neighbours : List Row :=
  [.inexact, .ofCells [("avg", .integer (Cell.leastInexact - 1))],
    .ofCells [("dept", .text "cpsc")]]

theorem finite_neighbours :
    ∀ row ∈ Row.neighbours, ∀ cell, row["avg"]? = some cell → cell.Finite := by
  have found : Row.neighbours.map (·["avg"]?) =
      [some (.integer Cell.leastInexact), some (.integer (Cell.leastInexact - 1)), none] := rfl
  intro row mem cell has
  have shown : some cell ∈ Row.neighbours.map (·["avg"]?) := has ▸ List.mem_map_of_mem mem
  rw [found] at shown
  simp only [List.mem_cons, Option.some.injEq, reduceCtorEq, List.not_mem_nil, or_false] at shown
  rcases shown with rfl | rfl
  · exact .integer _
  · exact .integer _

theorem mem_groupRows_neighbours : [Row.inexact] ∈ groupRows ["avg"] Row.neighbours :=
  mem_groupRows.mpr ⟨.inexact, List.mem_cons_self, by decide⟩

theorem select_equal_neighbours :
    ∃ filter, Query.readConditions ⟨"sections", .sections, 3⟩
        (Query.equality ⟨"sections", .sections, 3⟩ ⟨"avg", .numeric⟩ (.integer Cell.leastInexact)) =
          .ok filter ∧
      (∀ row ∈ Row.neighbours, filter.accepts row = true ↔ row ∈ [Row.inexact] ∨
        ∃ other, row["avg"]? = some other ∧ other.Merges (.integer Cell.leastInexact)) ∧
      (filter.select Row.neighbours = [Row.inexact] ↔ ∀ row ∈ Row.neighbours, ∀ other,
        row["avg"]? = some other → ¬ other.Merges (.integer Cell.leastInexact)) ∧
      ((∀ row ∈ Row.neighbours, ∀ n, row["avg"]? = some (.integer n) → n.toInt.natAbs ≤ 2 ^ 53) →
        filter.select Row.neighbours = [Row.inexact]) :=
  @select_equal ⟨"sections", .sections, 3⟩ (by decide) ⟨"avg", .numeric⟩ (by decide) rfl _
    finite_neighbours .departments rfl _ mem_groupRows_neighbours _ rfl

/-- An integer that is no binary64 number is equal to its neighbour in a filter, but not in a
group. -/
theorem select_equal_inexact : ¬ ∀ (dataset : Descriptor), '_' ∉ dataset.id.toList →
    ∀ field ∈ dataset.kind.fields, field.type = .numeric → ∀ rows : List Row,
    (∀ row ∈ rows, ∀ cell, row[field.name]? = some cell → cell.Finite) →
    ∀ t : Transformation, t.group = [field.name] → ∀ members ∈ groupRows t.group rows, ∀ cell,
    (t.collapse members).get? (.field field.name) = some cell →
    ∃ filter, Query.readConditions dataset (Query.equality dataset field cell) = .ok filter ∧
      filter.select rows = members := by
  intro exact
  obtain ⟨filter, read, same⟩ := exact ⟨"sections", .sections, 3⟩ (by decide) ⟨"avg", .numeric⟩
    (by decide) rfl _ finite_neighbours .departments rfl _ mem_groupRows_neighbours _ rfl
  have is : Query.readConditions ⟨"sections", .sections, 3⟩
      (Query.equality ⟨"sections", .sections, 3⟩ ⟨"avg", .numeric⟩ (.integer Cell.leastInexact)) =
        .ok (.compare .equal "avg" (.ofInt Cell.leastInexact.toInt)) :=
    Query.readConditions_number (by decide) ⟨"avg", .numeric⟩ (by decide) rfl (.integer _)
  obtain rfl := Except.ok.inj (read.symm.trans is)
  revert same
  decide +kernel

end CampusQuery
