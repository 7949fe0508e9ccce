import CampusQuery.Cell
import CampusQuery.Pattern

/-!
# Row filters

A comparison never holds of a row without the field, or with a cell of the other type in it; its
negation then does.
-/

namespace CampusQuery

/-- How a number is compared with a literal. -/
inductive Comparison
  | greater
  | less
  | equal
  deriving DecidableEq, Repr

namespace Comparison

def keyword : Comparison → String
  | greater => "GT"
  | less => "LT"
  | equal => "EQ"

def ofKeyword? : String → Option Comparison
  | "GT" => some greater
  | "LT" => some less
  | "EQ" => some equal
  | _ => none

/-- The outcome of comparing the number with the literal. -/
def ordering : Comparison → Ordering
  | greater => .gt
  | less => .lt
  | equal => .eq

/-- Whether the comparison holds; with a NaN none does. -/
def holds (comparison : Comparison) (number literal : Binary64) : Bool :=
  number.compare? literal = some comparison.ordering

end Comparison

/-- A condition on rows. -/
inductive Filter
  | all
  | and (children : List Filter)
  | or (children : List Filter)
  | not (child : Filter)
  | compare (comparison : Comparison) (field : String) (literal : Binary64)
  | is (field : String) (pattern : Pattern)

instance : Inhabited Filter := ⟨.all⟩

namespace Filter

mutual

/-- Whether a row satisfies the filter. -/
def accepts (row : Row) : Filter → Bool
  | all => true
  | and children => acceptsEvery row children
  | or children => acceptsSome row children
  | not child => !accepts row child
  | compare comparison field literal =>
    (row[field]?.bind Cell.toBinary64?).any (comparison.holds · literal)
  | is field pattern => (row[field]?.bind Cell.text?).any pattern.admits

def acceptsEvery (row : Row) : List Filter → Bool
  | [] => true
  | child :: children => accepts row child && acceptsEvery row children

def acceptsSome (row : Row) : List Filter → Bool
  | [] => false
  | child :: children => accepts row child || acceptsSome row children

end

theorem acceptsEvery_eq_all (row : Row) (children : List Filter) :
    acceptsEvery row children = children.all (accepts row) := by
  induction children with
  | nil => rfl
  | cons child children ih => simp [acceptsEvery, ih]

theorem acceptsSome_eq_any (row : Row) (children : List Filter) :
    acceptsSome row children = children.any (accepts row) := by
  induction children with
  | nil => rfl
  | cons child children ih => simp [acceptsSome, ih]

/-- The rows that satisfy the filter, in their order. Without a condition no row is looked at. -/
def select : Filter → List Row → List Row
  | all, rows => rows
  | filter, rows => rows.filter filter.accepts

theorem select_eq_filter (filter : Filter) (rows : List Row) :
    filter.select rows = rows.filter filter.accepts := by
  cases filter with
  | all => exact (List.filter_eq_self.mpr fun row _ => by rw [accepts]).symm
  | _ => rfl

end Filter

end CampusQuery
