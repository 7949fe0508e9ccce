import CampusQuery.Cell
import CampusQuery.Json.Writer

/-!
# Result rows

A result row lists cells under pairwise different names. A name that is there already keeps its
first cell. In JSON a row is an object with the same names in the same order.
-/

namespace CampusQuery

structure ResultRow where
  cells : List (String × Cell)
  names_nodup : (cells.map Prod.fst).Nodup

namespace ResultRow

@[ext]
theorem ext {a b : ResultRow} (h : a.cells = b.cells) : a = b := by
  cases a
  cases b
  simpa using h

def names (row : ResultRow) : List String := row.cells.map Prod.fst

def empty : ResultRow := ⟨[], by simp⟩

/-- Adds a cell at the end, unless the name is taken. -/
def push (row : ResultRow) (name : String) (cell : Cell) : ResultRow :=
  if taken : name ∈ row.cells.map Prod.fst then row
  else
    { cells := row.cells ++ [(name, cell)]
      names_nodup := by
        rw [List.map_append, List.nodup_append]
        exact ⟨row.names_nodup, by simp, by
          rintro a ha b hb rfl
          simp only [List.map_cons, List.map_nil, List.mem_singleton] at hb
          exact taken (hb ▸ ha)⟩ }

def get? (row : ResultRow) (name : String) : Option Cell := row.cells.lookup name

/-- The row with the given cells, the first one under each name. -/
def ofList (cells : List (String × Cell)) : ResultRow :=
  cells.foldl (fun row (name, cell) => row.push name cell) empty

/-- Equality of rows by the numbers in them: a row with a NaN agrees with nothing. -/
def agrees (a b : ResultRow) : Bool :=
  a.cells.length = b.cells.length &&
    (a.cells.zip b.cells).all fun ((n, x), (m, y)) => n = m && x.agrees y

end ResultRow

/-- A cell as JSON. The infinities and NaN have no JSON number and become null. -/
def Json.ofCell : Cell → Json
  | .integer n => .number (.integer n.toInt)
  | .float x => if x.isFinite then .number (.float x) else .null
  | .text s => .string s

/-- A list of result rows as an array of objects. -/
def Json.ofRows (rows : List ResultRow) : Json :=
  .array (rows.map fun row => .object (row.cells.map fun (name, cell) => (name, .ofCell cell)))

end CampusQuery
