import Mathlib
import CampusQuery.Proofs.Distinct
import CampusQuery.ResultRow

/-!
# What a result row keeps

A result row has the names that it was given without repetitions (`names_ofList`), and under each
the first cell (`get?_ofList`): it keeps the entries that are first under their names
(`keeps_ofList`). To push entries onto a row is to collect them behind its cells
(`pushAll_eq_ofList`).

Entries whose names are taken change nothing (`pushAll_of_mem`). So a row is collected from its own
cells, once or over and over again (`ofList_cells`, `ofList_repeated`), and it makes no difference
whether equal entries are collected once or as often as they come (`ofList_eraseDups`).
-/

namespace CampusQuery.ResultRow

/-- To look a name up tells whether it is taken. -/
theorem isSome_get? {row : ResultRow} {name : String} :
    (row.get? name).isSome = true ↔ name ∈ row.names := by
  rw [get?, List.lookup_isSome_iff, names, List.mem_map]
  exact exists_congr fun _ => and_congr_right fun _ => beq_iff_eq.trans eq_comm

theorem push_of_mem {row : ResultRow} {name : String} (taken : name ∈ row.names) (cell : Cell) :
    row.push name cell = row :=
  dif_pos taken

theorem cells_push {row : ResultRow} {name : String} (fresh : name ∉ row.names) (cell : Cell) :
    (row.push name cell).cells = row.cells ++ [(name, cell)] :=
  congrArg cells (dif_neg fresh)

theorem names_push (row : ResultRow) (name : String) (cell : Cell) :
    (row.push name cell).names = if name ∈ row.names then row.names else row.names ++ [name] := by
  split
  · rename_i taken
    rw [push_of_mem taken]
  · rename_i fresh
    rw [names, cells_push fresh, List.map_append]
    rfl

theorem get?_push (row : ResultRow) (name other : String) (cell : Cell) :
    (row.push name cell).get? other = (row.cells ++ [(name, cell)]).lookup other := by
  by_cases taken : name ∈ row.names
  · rw [push_of_mem taken, get?, List.lookup_append]
    by_cases same : other = name
    · have found : (row.get? other).isSome = true := isSome_get?.mpr (same ▸ taken)
      exact (Option.or_of_isSome found).symm
    · simp [List.lookup_cons, beq_false_of_ne same]
  · rw [get?, cells_push taken]

theorem ofList_concat (cells : List (String × Cell)) (name : String) (cell : Cell) :
    ofList (cells ++ [(name, cell)]) = (ofList cells).push name cell := by
  rw [ofList, List.foldl_append]
  rfl

theorem names_ofList (cells : List (String × Cell)) :
    (ofList cells).names = (cells.map Prod.fst).eraseDups := by
  induction cells using List.reverseRecOn with
  | nil => rfl
  | append_singleton cells last ih =>
    obtain ⟨name, cell⟩ := last
    rw [ofList_concat, names_push, ih, List.map_append, List.map_singleton, eraseDups_concat]
    simp only [List.mem_eraseDups]

theorem get?_ofList (cells : List (String × Cell)) (name : String) :
    (ofList cells).get? name = cells.lookup name := by
  induction cells using List.reverseRecOn with
  | nil => rfl
  | append_singleton cells last ih =>
    obtain ⟨other, cell⟩ := last
    rw [ofList_concat, get?_push, List.lookup_append, List.lookup_append, ← ih, get?]

/-- The first of the entries with the name has the cell. -/
def IsFirst (entries : List (String × Cell)) (name : String) (cell : Cell) : Prop :=
  ∃ before after, entries = before ++ (name, cell) :: after ∧ name ∉ before.map Prod.fst

theorem not_mem_names_iff {entries : List (String × Cell)} {name : String} :
    name ∉ entries.map Prod.fst ↔ ∀ entry ∈ entries, (name != entry.1) = true := by
  simp only [List.mem_map, not_exists, not_and, bne_iff_ne]
  exact forall₂_congr fun _ _ => ne_comm

theorem lookup_eq_some_iff {entries : List (String × Cell)} {name : String} {cell : Cell} :
    entries.lookup name = some cell ↔ IsFirst entries name cell := by
  simp only [List.lookup_eq_some_iff, IsFirst, not_mem_names_iff]

theorem lookup_eq_none_iff {entries : List (String × Cell)} {name : String} :
    entries.lookup name = none ↔ name ∉ entries.map Prod.fst := by
  rw [List.lookup_eq_none_iff, not_mem_names_iff]

/-- With names that do not repeat, every entry is the first with its name. -/
theorem isFirst_iff_mem {entries : List (String × Cell)} (names : (entries.map Prod.fst).Nodup)
    {name : String} {cell : Cell} : IsFirst entries name cell ↔ (name, cell) ∈ entries := by
  constructor
  · rintro ⟨before, after, rfl, -⟩
    exact List.mem_append_right _ List.mem_cons_self
  · intro mem
    obtain ⟨before, after, rfl⟩ := List.append_of_mem mem
    exact ⟨before, after, rfl, not_mem_of_nodup names⟩

/-- The row has the names of the entries in the order in which they first come, and under each the
first cell. -/
structure Keeps (entries : List (String × Cell)) (row : ResultRow) : Prop where
  names : row.names = (entries.map Prod.fst).eraseDups
  mem_cells : ∀ name cell, (name, cell) ∈ row.cells ↔ IsFirst entries name cell
  get?_eq_some : ∀ name cell, row.get? name = some cell ↔ IsFirst entries name cell
  get?_eq_none : ∀ name, row.get? name = none ↔ name ∉ entries.map Prod.fst

theorem keeps_ofList (entries : List (String × Cell)) : Keeps entries (ofList entries) := by
  have found (name : String) (cell : Cell) :
      (ofList entries).get? name = some cell ↔ IsFirst entries name cell := by
    rw [get?_ofList, lookup_eq_some_iff]
  refine ⟨names_ofList entries, fun name cell => ?_, found, fun name => ?_⟩
  · rw [← found, get?, lookup_eq_some_iff, isFirst_iff_mem (ofList entries).names_nodup]
  · rw [get?_ofList, lookup_eq_none_iff]

theorem ofList_cells (row : ResultRow) : ofList row.cells = row := by
  obtain ⟨cells, nodup⟩ := row
  refine ext ?_
  induction cells using List.reverseRecOn with
  | nil => rfl
  | append_singleton cells last ih =>
    obtain ⟨name, cell⟩ := last
    have apart := nodup
    rw [List.map_append, List.map_singleton, ← List.concat_eq_append, List.nodup_concat] at apart
    have before : (ofList cells).cells = cells := ih apart.2
    have fresh : name ∉ (ofList cells).names := by
      rw [names, before]
      exact apart.1
    rw [ofList_concat, cells_push fresh, before]

/-- Equal entries may as well be collected once. -/
theorem ofList_eraseDups (entries : List (String × Cell)) :
    ofList entries.eraseDups = ofList entries := by
  induction entries using List.reverseRecOn with
  | nil => rfl
  | append_singleton entries last ih =>
    obtain ⟨name, cell⟩ := last
    rw [eraseDups_concat, ofList_concat]
    split
    · rename_i old
      have taken : name ∈ (ofList entries).names := by
        rw [names_ofList, List.mem_eraseDups]
        exact List.mem_map.mpr ⟨_, old, rfl⟩
      rw [ih, push_of_mem taken]
    · rw [ofList_concat, ih]

/-- The row after the entries have been pushed one after another. -/
def pushAll (row : ResultRow) (entries : List (String × Cell)) : ResultRow :=
  entries.foldl (fun row (name, cell) => row.push name cell) row

theorem pushAll_eq_ofList (row : ResultRow) (entries : List (String × Cell)) :
    row.pushAll entries = ofList (row.cells ++ entries) := by
  have collected : ofList (row.cells ++ entries) = (ofList row.cells).pushAll entries :=
    List.foldl_append
  rw [collected, ofList_cells]

theorem pushAll_of_mem {row : ResultRow} {entries : List (String × Cell)}
    (taken : ∀ entry ∈ entries, entry.1 ∈ row.names) : row.pushAll entries = row := by
  induction entries with
  | nil => rfl
  | cons entry entries ih =>
    obtain ⟨first, others⟩ := List.forall_mem_cons.mp taken
    have unchanged : row.pushAll (entry :: entries) = row.pushAll entries :=
      congrArg (pushAll · entries) (push_of_mem first entry.2)
    rw [unchanged, ih others]

theorem ofList_repeated (row : ResultRow) (times : Nat) :
    ofList (List.replicate (times + 1) row.cells).flatten = row := by
  rw [List.replicate_succ, List.flatten_cons, ← pushAll_eq_ofList]
  refine pushAll_of_mem fun entry mem => ?_
  obtain ⟨cells, copy, inside⟩ := List.mem_flatten.mp mem
  exact List.mem_map.mpr ⟨entry, List.eq_of_mem_replicate copy ▸ inside, rfl⟩

end CampusQuery.ResultRow
