import CampusQuery.Command.Arguments
import CampusQuery.DatasetFile
import CampusQuery.Json.Reader
import CampusQuery.Manual

/-!
# Running commands

A command reads dataset files into a fresh catalog and answers a query from it, lists the datasets,
or shows the manual. The text of a query is read before any file, and the files are read one by one
up to the first one that fails.
-/

namespace CampusQuery

/-- Why a file has no text. -/
inductive FileError
  | notFound
  /-- The bytes are not UTF-8. -/
  | notText
  /-- Any other reason, as the system words it. -/
  | other (message : String)
  deriving DecidableEq

def FileError.message : FileError → String
  | notFound => "No such file or directory (os error 2)"
  | notText => "stream did not contain valid UTF-8"
  | other message => message

/-- Why a command fails. -/
inductive CommandError
  | query (error : QueryError)
  | catalog (error : CatalogError)
  /-- A text is not JSON. -/
  | json (text : String)
  | file (error : FileError)
  | dataset (defect : FileDefect)
  | noQuery
  | unknownTopic (name : String)
  deriving DecidableEq

namespace CommandError

def message (wording : Wording) : CommandError → String
  | query .stopped => QueryError.stopped.message
  | query error => "Query failed: " ++ error.message
  | catalog error => "Could not load dataset: " ++ error.message wording
  | json text => "Invalid JSON: " ++ wording.complaint text
  | file error => "IO error: " ++ error.message
  | dataset defect => "Invalid dataset file: " ++ defect.message
  | noQuery => "No query provided. Pass it as an argument or pipe it to stdin."
  | unknownTopic name =>
    "Unknown category: '" ++ name ++ "'\nRun 'insight docs' to see available categories."

/-- A program that stops tells it by a code of its own, unless it is built to abort. -/
def exitCode : CommandError → Nat
  | query .stopped => 101
  | _ => 1

end CommandError

namespace Catalog

/-- Adds the tables of a document up to the first one that is refused. -/
def loadDocument (catalog : Catalog) (document : Json) : Catalog × Option CommandError :=
  match DatasetFile.read document with
  | .error defect => (catalog, some (.dataset defect))
  | .ok tables =>
    let (reached, error) := catalog.addAll tables
    (reached, error.map .catalog)

/-- The catalog if there is no error. -/
def orError {ε : Type} : Catalog × Option ε → Except ε Catalog
  | (catalog, none) => .ok catalog
  | (_, some error) => .error error

end Catalog

/-- The texts of files by their names. -/
abbrev Files := String → Except FileError String

namespace Command

def readJson (text : String) : Except CommandError Json :=
  match Json.read? text with
  | some document => .ok document
  | none => .error (.json text)

/-- Adds the tables of a file to a catalog. -/
def load (files : Files) (catalog : Catalog) (name : String) : Except CommandError Catalog := do
  let text ← (files name).mapError .file
  let document ← readJson text
  Catalog.orError (catalog.loadDocument document)

/-- The catalog of the datasets of all files. -/
def loadCatalog (files : Files) (data : List String) : Except CommandError Catalog :=
  data.foldlM (load files) Catalog.empty

/-- The answer to a query text from the datasets of files. -/
def answerQuery (files : Files) (text : Option String) (data : List String) :
    Except CommandError (List ResultRow) := do
  let text ← match text with
    | some text => .ok text
    | none => .error .noQuery
  let document ← readJson text
  let catalog ← loadCatalog files data
  (catalog.answer document).mapError .query

/-- The text about the topic that a word names. -/
def topicText (name : String) : Except CommandError String :=
  match Topic.ofName? name with
  | some found => .ok found.text
  | none => .error (.unknownTopic name)

def datasetLine (dataset : Descriptor) : String :=
  dataset.id ++ "\t" ++ dataset.kind.name ++ "\t" ++ toString dataset.rowCount ++ "\n"

/-- The text that a command shows. A query without a text is read from the input. -/
def output (files : Files) (input : String) : Command → Except CommandError String
  | query text data pretty => do
    let rows ← answerQuery files (some (text.getD input)) data
    let document := Json.ofRows rows
    return (if pretty then document.pretty else document.compact) ++ "\n"
  | datasets data => do
    let catalog ← loadCatalog files data
    return String.join (catalog.descriptors.map datasetLine)
  | topics => return Manual.overview
  | topic name => topicText name

end Command

/-- How a run of the program ends. -/
structure Outcome where
  exitCode : Nat
  output : String
  errors : String
  deriving DecidableEq

/-- Runs the program: 0 for success, 1 for a failed command, 2 for wrong usage. -/
def Outcome.ofArguments (wording : Wording) (files : Files) (input : String)
    (arguments : List String) : Outcome :=
  match Command.ofArguments? arguments with
  | none => ⟨2, "", "error: wrong usage\n"⟩
  | some command =>
    match command.output files input with
    | .ok text => ⟨0, text, ""⟩
    | .error error => ⟨error.exitCode, "", error.message wording ++ "\n"⟩

end CampusQuery
