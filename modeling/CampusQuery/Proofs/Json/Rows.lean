import CampusQuery.DatasetFile
import CampusQuery.Proofs.Cell
import CampusQuery.Proofs.Except
import CampusQuery.Proofs.Json.Distinct
import CampusQuery.ResultRow

/-!
# Rows in JSON

`HasCell` says which cell a JSON value stands for: an integer in range is kept, any other number is
the nearest binary64 number, and a string is kept. A row is read from an object exactly if all its
members stand for cells, and it then has these cells under their names (`readRow_eq_ok`).

What is written of a row without infinities and NaNs is read back as the row, in whatever order its
cells are written (`readRow_write`).
-/

namespace CampusQuery

namespace Json

/-- The cell that a JSON value stands for. -/
inductive HasCell : Json → Cell → Prop
  | integer (n : Int64) : HasCell (.number (.integer n.toInt)) (.integer n)
  | outside {n : Int} (h : n < -2 ^ 63 ∨ 2 ^ 63 ≤ n) :
    HasCell (.number (.integer n)) (.float (.ofInt n))
  | float (x : Binary64) : HasCell (.number (.float x)) (.float x)
  | text (s : String) : HasCell (.string s) (.text s)

theorem ofJson?_eq_some {value : Json} {cell : Cell} :
    Cell.ofJson? value = some cell ↔ value.HasCell cell := by
  constructor
  · intro h
    match value with
    | .number (.integer n) =>
      rw [Cell.ofJson?] at h
      cases word : Cell.ofInt? n with
      | some m =>
        rw [word] at h
        obtain rfl := Cell.ofInt?_eq_some.mp word
        exact Option.some.inj h ▸ .integer m
      | none =>
        rw [word] at h
        exact Option.some.inj h ▸ .outside (Cell.ofInt?_eq_none.mp word)
    | .number (.float x) => exact Option.some.inj h ▸ .float x
    | .string s => exact Option.some.inj h ▸ .text s
    | .null | .bool _ | .array _ | .object _ => nomatch h
  · intro h
    cases h with
    | integer n => rw [Cell.ofJson?, Cell.ofInt?_eq_some.mpr rfl]
    | outside h => rw [Cell.ofJson?, Cell.ofInt?_eq_none.mpr h]
    | float x => rfl
    | text s => rfl

theorem HasCell.unique {value : Json} {a b : Cell} (ha : value.HasCell a) (hb : value.HasCell b) :
    a = b :=
  Option.some.inj ((ofJson?_eq_some.mpr ha).symm.trans (ofJson?_eq_some.mpr hb))

/-- What is written of a cell stands for the cell, unless it is an infinity or a NaN. -/
theorem hasCell_ofCell {cell : Cell} (finite : ∀ x, cell = .float x → x.isFinite = true) :
    (ofCell cell).HasCell cell := by
  cases cell with
  | integer n => exact .integer n
  | float x =>
    rw [ofCell, if_pos (finite x rfl)]
    exact .float x
  | text s => exact .text s

theorem HasCell.rel_unique {value : Option Json} {a b : Option Cell}
    (ha : Option.Rel HasCell value a) (hb : Option.Rel HasCell value b) : a = b := by
  cases ha with
  | none =>
    cases hb
    rfl
  | some ha =>
    cases hb with
    | some hb => rw [ha.unique hb]

end Json

/-- A JSON value of the type: a number or a string. -/
def FieldType.Fits : FieldType → Json → Prop
  | numeric, value => ∃ n, value = .number n
  | text, value => ∃ s, value = .string s

theorem FieldType.Fits.exists_hasCell {type : FieldType} {value : Json} (fits : type.Fits value) :
    ∃ cell, value.HasCell cell := by
  cases type with
  | numeric =>
    obtain ⟨n | x, rfl⟩ := fits
    · cases word : Cell.ofInt? n with
      | some m =>
        obtain rfl := Cell.ofInt?_eq_some.mp word
        exact ⟨_, .integer m⟩
      | none => exact ⟨_, .outside (Cell.ofInt?_eq_none.mp word)⟩
    · exact ⟨_, .float x⟩
  | text =>
    obtain ⟨s, rfl⟩ := fits
    exact ⟨_, .text s⟩

theorem Json.HasCell.fits_iff {value : Json} {cell : Cell} (h : value.HasCell cell)
    {type : FieldType} : type.Fits value ↔ type.admits cell = true := by
  cases h <;> cases type <;> simp [FieldType.Fits, FieldType.admits, Cell.isNumber]

/-! ## Rows -/

namespace DatasetFile

theorem readCells_eq_ok {members : List (String × Json)} {cells : List (String × Cell)} :
    readCells members = .ok cells ↔
      List.Forall₂ (fun member entry => member.1 = entry.1 ∧ member.2.HasCell entry.2)
        members cells := by
  induction members generalizing cells with
  | nil =>
    rw [readCells, List.forall₂_nil_left_iff, Except.ok.injEq, eq_comm]
  | cons member members ih =>
    obtain ⟨name, value⟩ := member
    rw [readCells, List.forall₂_cons_left_iff]
    cases found : Cell.ofJson? value with
    | none =>
      refine ⟨nofun, fun ⟨entry, _, ⟨_, h⟩, _, _⟩ => ?_⟩
      rw [Json.ofJson?_eq_some.mpr h] at found
      cases found
    | some cell =>
      have h := Json.ofJson?_eq_some.mp found
      simp only [map_eq_ok, ih]
      constructor
      · rintro ⟨rest, each, rfl⟩
        exact ⟨_, _, ⟨rfl, h⟩, each, rfl⟩
      · rintro ⟨⟨_, other⟩, rest, ⟨rfl, ho⟩, each, rfl⟩
        exact ⟨rest, each, by rw [h.unique ho]⟩

end DatasetFile

/-- The row of a list of cells with different names has each of them under its name. -/
theorem Row.getElem?_ofList {cells : List (String × Cell)} (names : (cells.map Prod.fst).Nodup)
    {name : String} {cell : Cell} :
    (Std.ExtTreeMap.ofList cells : Row)[name]? = some cell ↔ (name, cell) ∈ cells := by
  have distinct : cells.Pairwise fun a b => ¬ compare a.1 b.1 = .eq :=
    (List.pairwise_map.mp names).imp fun ne same => ne (Std.LawfulEqOrd.eq_of_compare same)
  have found {cell : Cell} (mem : (name, cell) ∈ cells) :
      (Std.ExtTreeMap.ofList cells : Row)[name]? = some cell :=
    Std.ExtTreeMap.getElem?_ofList_of_mem Std.ReflOrd.compare_self distinct mem
  refine ⟨fun h => ?_, found⟩
  by_cases mem : name ∈ cells.map Prod.fst
  · obtain ⟨⟨_, other⟩, inside, rfl⟩ := List.mem_map.mp mem
    rw [found inside] at h
    exact Option.some.inj h ▸ inside
  · rw [Std.ExtTreeMap.getElem?_ofList_of_contains_eq_false (by simpa using mem)] at h
    cases h

namespace DatasetFile

theorem rel_ofList {members : List (String × Json)} {cells : List (String × Cell)}
    (names : (members.map Prod.fst).Nodup)
    (each : List.Forall₂ (fun member entry => member.1 = entry.1 ∧ member.2.HasCell entry.2)
      members cells) (name : String) :
    Option.Rel Json.HasCell (Json.fieldOf? name members)
      (Std.ExtTreeMap.ofList cells : Row)[name]? := by
  have names' : (cells.map Prod.fst).Nodup := by
    have same : members.map Prod.fst = cells.map Prod.fst := by
      rw [← List.forall₂_eq_eq_eq, List.forall₂_map_left_iff, List.forall₂_map_right_iff]
      exact each.imp fun _ _ h => h.1
    exact same ▸ names
  cases found : Json.fieldOf? name members with
  | some value =>
    obtain ⟨⟨_, cell⟩, mem, rfl, has⟩ :=
      exists_of_mem_right each.flip ((Json.fieldOf?_eq_some names).mp found)
    rw [(Row.getElem?_ofList names').mpr mem]
    exact .some has
  | none =>
    cases present : (Std.ExtTreeMap.ofList cells : Row)[name]? with
    | none => exact .none
    | some cell =>
      obtain ⟨⟨_, value⟩, mem, rfl, _⟩ :=
        exists_of_mem_right each ((Row.getElem?_ofList names').mp present)
      rw [(Json.fieldOf?_eq_some names).mpr mem] at found
      cases found

theorem exists_readRow {members : List (String × Json)}
    (readable : ∀ member ∈ members, ∃ cell, member.2.HasCell cell) :
    ∃ row, readRow (.object members) = .ok row := by
  have each : ∀ member ∈ members, ∃ entry : String × Cell,
      member.1 = entry.1 ∧ member.2.HasCell entry.2 := by
    intro member mem
    obtain ⟨cell, has⟩ := readable member mem
    exact ⟨(member.1, cell), rfl, has⟩
  obtain ⟨cells, each⟩ := exists_forall₂.mpr each
  exact ⟨_, map_eq_ok.mpr ⟨cells, readCells_eq_ok.mpr each, rfl⟩⟩

/-- A row is read from the members of an object, and its cells are what they stand for. -/
theorem readRow_eq_ok {item : Json} (distinct : item.Distinct) {row : Row} :
    readRow item = .ok row ↔
      ∃ members, item = .object members ∧
        ∀ name, Option.Rel Json.HasCell (Json.fieldOf? name members) row[name]? := by
  cases distinct with
  | @object members names _ =>
    have read {row : Row} (h : readRow (.object members) = .ok row) :
        ∀ name, Option.Rel Json.HasCell (Json.fieldOf? name members) row[name]? := by
      obtain ⟨cells, each, rfl⟩ := map_eq_ok.mp h
      exact rel_ofList names (readCells_eq_ok.mp each)
    refine ⟨fun h => ⟨members, rfl, read h⟩, ?_⟩
    rintro ⟨_, ⟨⟩, same⟩
    have readable : ∀ member ∈ members, ∃ cell, member.2.HasCell cell := by
      rintro ⟨name, value⟩ mem
      have has := same name
      rw [(Json.fieldOf?_eq_some names).mpr mem] at has
      cases hc : row[name]? with
      | some cell => exact ⟨cell, Option.rel_some_some.mp (hc ▸ has)⟩
      | none =>
        rw [hc] at has
        cases has
    obtain ⟨other, h⟩ := exists_readRow readable
    have is : other = row :=
      Std.ExtTreeMap.ext_getElem? fun name => Json.HasCell.rel_unique (read h name) (same name)
    exact is ▸ h
  | _ => exact ⟨nofun, nofun⟩

/-- The cells of a row are read back, in whatever order they are written. -/
theorem readRow_write {row : Row}
    (finite : ∀ (name : String) (x : Binary64), row[name]? = some (.float x) → x.isFinite = true)
    {cells : List (String × Cell)} (perm : cells.Perm row.toList) :
    readRow (.object (cells.map fun (name, cell) => (name, .ofCell cell))) = .ok row := by
  have names : (cells.map Prod.fst).Nodup := by
    rw [(perm.map Prod.fst).nodup_iff, Std.ExtTreeMap.map_fst_toList_eq_keys]
    exact Std.ExtTreeMap.nodup_keys
  have mem_iff {name : String} {cell : Cell} : (name, cell) ∈ cells ↔ row[name]? = some cell :=
    perm.mem_iff.trans Std.ExtTreeMap.mem_toList_iff_getElem?_eq_some
  rw [readRow, map_eq_ok]
  refine ⟨cells, ?_, Std.ExtTreeMap.ext_getElem? fun name => Option.ext fun cell => ?_⟩
  · rw [readCells_eq_ok, List.forall₂_map_left_iff, List.forall₂_same]
    rintro ⟨name, cell⟩ mem
    exact ⟨rfl, Json.hasCell_ofCell fun x is => finite name x (is ▸ mem_iff.mp mem)⟩
  · rw [Row.getElem?_ofList names, mem_iff]

end DatasetFile

end CampusQuery
