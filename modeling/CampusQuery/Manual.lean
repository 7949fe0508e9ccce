/-!
# The manual

The texts that the program shows about itself: an overview and one text for each topic.
-/

namespace CampusQuery

/-- What a text of the manual is about. -/
inductive Topic
  | filters
  | options
  | transformations
  | fields
  | errors
  deriving DecidableEq, Repr

namespace Topic

/-- The topic that a word names, in upper or lower case. Only ASCII letters are folded: no other
letter has one of the letters of these words as its lower case. -/
def ofName? (word : String) : Option Topic :=
  match word.toLower with
  | "filters" | "filter" | "where" => some filters
  | "options" | "columns" | "order" => some options
  | "transformations" | "group" | "apply" => some transformations
  | "fields" | "schema" | "datasets" => some fields
  | "errors" | "error" => some errors
  | _ => none

end Topic

namespace Manual

/-- The text of the given lines, each with its end. -/
def lines (texts : List String) : String := String.join (texts.map (· ++ "\n"))

def overview : String :=
  lines [
    "INSIGHT QUERY DOCUMENTATION",
    "",
    "Queries are JSON documents run against one loaded dataset of course sections",
    "or campus rooms. The dataset is picked by the prefix of the first COLUMNS entry.",
    "",
    "DOCUMENTATION CATEGORIES",
    "",
    "  filters           WHERE: AND, OR, NOT, GT, LT, EQ, IS and wildcards",
    "  options           COLUMNS and ORDER",
    "  transformations   GROUP and APPLY (MAX, MIN, AVG, SUM, COUNT)",
    "  fields            Field names of the sections and rooms schemas",
    "  errors            What makes a query invalid",
    "",
    "QUICK REFERENCE",
    "",
    "  \x7b\"WHERE\": \x7b\x7d, \"OPTIONS\": \x7b\"COLUMNS\": [\"sections_dept\"]\x7d\x7d",
    "",
    "  sections_avg        Qualified field: <datasetId>_<field>",
    "  maxAvg              Apply key: no underscore, declared in APPLY",
    "",
    "Run 'insight doc <category>' for detailed documentation."]

def filters : String :=
  lines [
    "FILTERS - The WHERE Clause",
    "",
    "MATCH EVERYTHING",
    "  \"WHERE\": \x7b\x7d",
    "",
    "LOGIC",
    "  \x7b\"AND\": [FILTER, ...]\x7d    Every child matches (non-empty list)",
    "  \x7b\"OR\":  [FILTER, ...]\x7d    Some child matches (non-empty list)",
    "  \x7b\"NOT\": FILTER\x7d           The single child does not match",
    "",
    "NUMERIC COMPARISON (numeric fields only, number literal)",
    "  \x7b\"GT\": \x7b\"sections_avg\": 90\x7d\x7d",
    "  \x7b\"LT\": \x7b\"rooms_seats\": 50\x7d\x7d",
    "  \x7b\"EQ\": \x7b\"sections_year\": 2015\x7d\x7d",
    "",
    "STRING COMPARISON (string fields only, string literal)",
    "  \x7b\"IS\": \x7b\"sections_dept\": \"cpsc\"\x7d\x7d     Exact match",
    "  \x7b\"IS\": \x7b\"sections_dept\": \"cp*\"\x7d\x7d      Starts with \"cp\"",
    "  \x7b\"IS\": \x7b\"sections_dept\": \"*sc\"\x7d\x7d      Ends with \"sc\"",
    "  \x7b\"IS\": \x7b\"sections_dept\": \"*ps*\"\x7d\x7d     Contains \"ps\"",
    "",
    "  Constraints:",
    "    - Every filter object has exactly one key",
    "    - * may only appear at the start and/or end of an IS value"]

def options : String :=
  lines [
    "OPTIONS - Projection and Ordering",
    "",
    "COLUMNS",
    "  \"COLUMNS\": [\"sections_dept\", \"sections_avg\"]",
    "    Non-empty list of qualified fields or apply keys, in output order.",
    "",
    "ORDER",
    "  \"ORDER\": \"sections_avg\"",
    "    Ascending by one key.",
    "",
    "  \"ORDER\": \x7b\"dir\": \"DOWN\", \"keys\": [\"sections_avg\", \"sections_dept\"]\x7d",
    "    dir is UP or DOWN. Later keys break ties of earlier ones; rows equal on",
    "    every key keep their relative order.",
    "",
    "  Constraints:",
    "    - ORDER keys must appear in COLUMNS or be apply keys",
    "    - At most 5000 rows are returned; larger results are an error"]

def transformations : String :=
  lines [
    "TRANSFORMATIONS - Grouping and Aggregation",
    "",
    "  \"TRANSFORMATIONS\": \x7b",
    "    \"GROUP\": [\"sections_dept\"],",
    "    \"APPLY\": [\x7b\"maxAvg\": \x7b\"MAX\": \"sections_avg\"\x7d\x7d]",
    "  \x7d",
    "",
    "GROUP",
    "  Non-empty list of fields. One output row per distinct combination.",
    "",
    "APPLY",
    "  MAX, MIN    Largest / smallest value (numeric fields)",
    "  SUM         Sum, rounded to 2 decimal places (numeric fields)",
    "  AVG         Mean, rounded to 2 decimal places (numeric fields)",
    "  COUNT       Number of distinct values (any field)",
    "",
    "  Constraints:",
    "    - Apply keys are non-empty, contain no underscore, and are unique",
    "    - With TRANSFORMATIONS, every COLUMNS entry is a GROUP field or apply key"]

def fields : String :=
  lines [
    "FIELDS - Dataset Schemas",
    "",
    "SECTIONS",
    "  string:   dept, id, instructor, title, uuid",
    "  numeric:  avg, pass, fail, audit, year",
    "",
    "ROOMS",
    "  string:   fullname, shortname, number, name, address, type, furniture, href",
    "  numeric:  lat, lon, seats",
    "",
    "DATASET FILES",
    "  \x7b\"id\": \"sections\", \"kind\": \"sections\", \"rows\": [\x7b\"dept\": \"cpsc\", ...\x7d, ...]\x7d",
    "  A file may also hold an array of such objects."]

def errors : String :=
  lines [
    "ERRORS - Invalid Queries",
    "",
    "A query is rejected before any row is read when:",
    "  - it has keys other than WHERE, OPTIONS, TRANSFORMATIONS",
    "  - WHERE or OPTIONS is missing, or COLUMNS is empty",
    "  - the first column names a dataset that is not loaded",
    "  - a field does not exist for the dataset's kind",
    "  - a field references a second dataset",
    "  - a filter object has zero or several keys",
    "  - GT/LT/EQ target a string field, or IS a numeric one",
    "  - an IS value has * in the middle",
    "  - GROUP or APPLY is missing, or an apply key is invalid or repeated",
    "  - MAX/MIN/AVG/SUM target a string field",
    "  - an ORDER key is not in COLUMNS or APPLY",
    "",
    "A query that would return more than 5000 rows fails after running."]

end Manual

/-- The text about a topic. -/
def Topic.text : Topic → String
  | filters => Manual.filters
  | options => Manual.options
  | transformations => Manual.transformations
  | fields => Manual.fields
  | errors => Manual.errors

end CampusQuery
