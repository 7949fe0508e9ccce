import CampusQuery.Command.Run
import CampusQuery.Proofs.Catalog.Files
import CampusQuery.Proofs.Json.RoundTrip

/-!
# Loading files

What has been loaded when something fails, and what is reported then:

* A document that is no dataset file leaves the catalog as it was. The tables of any other enter it
  one by one up to the first that is refused, which is the error (`exists_longestHead`).
* Files that can all be read are loaded as the one array of all their tables is
  (`loadCatalog_of_holds`), since both add the same tables in the same order.
* `Loading` is a run over files, by one step for each file up to the first that fails, and `Answers`
  is a run of a query. Neither speaks of files that the run does not come to.

`loads_in_turn` puts the three together. That two errors are the same means that the same is wrong
with the same row; of several fields that the row must not have, the text of either may name any
(`Kind.exists_named_unexpected`).
-/

namespace CampusQuery

namespace Catalog

/-- The tables in `done` are the longest part at the head of the list that can be added one after
another, which gives `next`. -/
structure LongestHead (catalog : Catalog) (tables done : List Table) (next : Catalog) :
    Prop where
  head : done <+: tables
  added : catalog.addAll done = (next, none)
  longest : ∀ more, more <+: tables → (∃ other, catalog.addAll more = (other, none)) →
    more <+: done

/-- The error of adding the table that comes after those in `done`, if any comes. -/
def RefusesNext (next : Catalog) (tables done : List Table) : Option CatalogError → Prop
  | none => tables = done
  | some error => ∃ table rest, tables = done ++ table :: rest ∧
      (next.add table).2 = .error error

end Catalog

namespace DatasetFile

/-- The array of the datasets of all documents. -/
def joined (documents : List Json) : Json := .array (documents.flatMap parts)

end DatasetFile

namespace Command

/-- The file has a text, and the document stands in it. -/
def Holds (files : Files) (name : String) (document : Json) : Prop :=
  ∃ text, files name = .ok text ∧ Json.read? text = some document

/-- The reasons for which a file is not loaded. -/
inductive Refuses (files : Files) (catalog : Catalog) (name : String) : CommandError → Prop
  | file {error : FileError} (unread : files name = .error error) :
    Refuses files catalog name (.file error)
  | json {text : String} (found : files name = .ok text) (notJson : Json.read? text = none) :
    Refuses files catalog name (.json text)
  | document {document : Json} {next : Catalog} {error : CommandError}
    (holds : Holds files name document)
    (refused : catalog.loadDocument document = (next, some error)) :
    Refuses files catalog name error

/-- The files are loaded into a catalog one after another. It ends with the error of the first that
is refused, or with the catalog after all of them. -/
inductive Loading (files : Files) :
    Catalog → List String → Except CommandError Catalog → Prop
  | done {catalog : Catalog} : Loading files catalog [] (.ok catalog)
  | refused {catalog : Catalog} {name : String} {names : List String} {error : CommandError}
    (refuses : Refuses files catalog name error) :
    Loading files catalog (name :: names) (.error error)
  | next {catalog larger : Catalog} {name : String} {names : List String} {document : Json}
    {outcome : Except CommandError Catalog} (holds : Holds files name document)
    (added : catalog.loadDocument document = (larger, none))
    (rest : Loading files larger names outcome) : Loading files catalog (name :: names) outcome

/-- How a query ends: with an error in its text whatever the files are, with the error of the first
file that is refused, or with the answer of the catalog of all files. -/
inductive Answers (files : Files) (data : List String) :
    Option String → Except CommandError (List ResultRow) → Prop
  | noQuery : Answers files data none (.error .noQuery)
  | notJson {text : String} (notJson : Json.read? text = none) :
    Answers files data (some text) (.error (.json text))
  | refused {text : String} {document : Json} {error : CommandError}
    (query : Json.read? text = some document)
    (loading : Loading files Catalog.empty data (.error error)) :
    Answers files data (some text) (.error error)
  | answered {text : String} {document : Json} {catalog : Catalog}
    (query : Json.read? text = some document)
    (loading : Loading files Catalog.empty data (.ok catalog)) :
    Answers files data (some text) ((catalog.answer document).mapError .query)

end Command

namespace Catalog

variable {catalog : Catalog}

theorem LongestHead.nil : catalog.LongestHead [] [] catalog :=
  ⟨List.prefix_rfl, rfl, fun _ head _ => head⟩

theorem LongestHead.refused {table : Table} {error : CatalogError}
    (refused : catalog.add table = (catalog, .error error)) (tables : List Table) :
    catalog.LongestHead (table :: tables) [] catalog := by
  refine ⟨List.nil_prefix, rfl, fun more head ⟨other, all⟩ => ?_⟩
  cases more with
  | nil => exact List.prefix_rfl
  | cons first others =>
    -- Anything but the empty part begins with the table that is refused.
    obtain ⟨rfl, _⟩ := List.cons_prefix_cons.mp head
    simp only [addAll, refused] at all
    cases all

theorem LongestHead.cons {larger next : Catalog} {table : Table} {listed : List String}
    {tables done : List Table} (added : catalog.add table = (larger, .ok listed))
    (h : larger.LongestHead tables done next) :
    catalog.LongestHead (table :: tables) (table :: done) next := by
  refine ⟨List.cons_prefix_cons.mpr ⟨rfl, h.head⟩, ?_, fun more head ⟨other, all⟩ => ?_⟩
  · simp only [addAll, added, h.added]
  · cases more with
    | nil => exact List.nil_prefix
    | cons first others =>
      obtain ⟨rfl, within⟩ := List.cons_prefix_cons.mp head
      simp only [addAll, added] at all
      exact List.cons_prefix_cons.mpr ⟨rfl, h.longest others within ⟨other, all⟩⟩

theorem RefusesNext.cons {next : Catalog} {tables done : List Table}
    {error : Option CatalogError} (h : RefusesNext next tables done error) (table : Table) :
    RefusesNext next (table :: tables) (table :: done) error := by
  cases error with
  | none => exact congrArg (table :: ·) h
  | some error =>
    obtain ⟨other, rest, rfl, refused⟩ := h
    exact ⟨other, rest, rfl, refused⟩

/-- Adding stops at the first table that is refused. -/
theorem exists_longestHead (catalog : Catalog) (tables : List Table) :
    ∃ done, catalog.LongestHead tables done (catalog.addAll tables).1 ∧
      RefusesNext (catalog.addAll tables).1 tables done (catalog.addAll tables).2 := by
  induction tables generalizing catalog with
  | nil => exact ⟨[], .nil, rfl⟩
  | cons table tables ih =>
    rw [addAll]
    rcases catalog.add_cases table with ⟨_, _, added⟩ | ⟨_, error, refused⟩
    · obtain ⟨done, longest, stop⟩ := ih ⟨catalog.datasets ++ [table.dataset]⟩
      rw [added]
      exact ⟨table :: done, longest.cons added, stop.cons table⟩
    · rw [refused]
      exact ⟨[], .refused refused tables, table, tables, rfl, congrArg Prod.snd refused⟩

theorem orError_addAll_append (first rest : List Table) :
    orError (catalog.addAll (first ++ rest)) =
      orError (catalog.addAll first) >>= fun larger => orError (larger.addAll rest) := by
  induction first generalizing catalog with
  | nil => rfl
  | cons table first ih =>
    rw [List.cons_append, addAll, addAll]
    rcases catalog.add_cases table with ⟨_, _, added⟩ | ⟨_, error, refused⟩
    · rw [added]
      exact ih
    · rw [refused]
      rfl

theorem loadDocument_of_read {document : Json} {tables : List Table}
    (read : DatasetFile.read document = .ok tables) :
    orError (catalog.loadDocument document) =
      (orError (catalog.addAll tables)).mapError .catalog := by
  simp only [loadDocument, read]
  obtain ⟨next, error⟩ := catalog.addAll tables
  cases error <;> rfl

theorem orError_eq_ok {ε : Type} {reached : Catalog × Option ε} {next : Catalog} :
    orError reached = .ok next ↔ reached = (next, none) := by
  obtain ⟨other, error⟩ := reached
  cases error <;> simp [orError]

theorem orError_eq_error {ε : Type} {reached : Catalog × Option ε} {error : ε} :
    orError reached = .error error ↔ ∃ next, reached = (next, some error) := by
  obtain ⟨other, error⟩ := reached
  cases error <;> simp [orError]

end Catalog

namespace Command

open Catalog (loadDocument orError orError_eq_ok orError_eq_error)

variable {files : Files} {catalog : Catalog} {name : String} {names : List String}

theorem readJson_eq_ok {text : String} {document : Json} :
    readJson text = .ok document ↔ Json.read? text = some document := by
  unfold readJson
  split <;> simp [*]

theorem readJson_of_none {text : String} (notJson : Json.read? text = none) :
    readJson text = .error (.json text) := by
  rw [readJson, notJson]

theorem load_of_holds {document : Json} (holds : Holds files name document) :
    load files catalog name = orError (catalog.loadDocument document) := by
  obtain ⟨text, found, read⟩ := holds
  rw [load, found]
  simp only [Except.mapError, ok_bind, readJson_eq_ok.mpr read]

/-- A file is refused, or its document adds all of its datasets. -/
theorem refuses_or_holds (files : Files) (catalog : Catalog) (name : String) :
    (∃ error, Refuses files catalog name error) ∨
      ∃ document larger, Holds files name document ∧
        catalog.loadDocument document = (larger, none) := by
  cases found : files name with
  | error error => exact .inl ⟨_, .file found⟩
  | ok text =>
    cases read : Json.read? text with
    | none => exact .inl ⟨_, .json found read⟩
    | some document =>
      have holds : Holds files name document := ⟨text, found, read⟩
      cases reached : catalog.loadDocument document with
      | mk next error =>
        cases error with
        | none => exact .inr ⟨document, next, holds, reached⟩
        | some error => exact .inl ⟨error, .document holds reached⟩

theorem Refuses.load_eq {error : CommandError} (h : Refuses files catalog name error) :
    load files catalog name = .error error := by
  cases h with
  | file unread =>
    rw [load, unread]
    rfl
  | json found notJson =>
    rw [load, found]
    simp only [Except.mapError, ok_bind, readJson_of_none notJson]
    rfl
  | document holds refused =>
    rw [load_of_holds holds]
    exact orError_eq_error.mpr ⟨_, refused⟩

theorem Loading.foldlM_load {outcome : Except CommandError Catalog}
    (h : Loading files catalog names outcome) :
    names.foldlM (load files) catalog = outcome := by
  induction h with
  | done => rfl
  | refused refuses => rw [List.foldlM_cons, refuses.load_eq, error_bind]
  | next holds added _ ih =>
    rw [List.foldlM_cons, load_of_holds holds, orError_eq_ok.mpr added, ok_bind, ih]

theorem exists_loading (files : Files) (catalog : Catalog) (names : List String) :
    ∃ outcome, Loading files catalog names outcome := by
  induction names generalizing catalog with
  | nil => exact ⟨_, .done⟩
  | cons name names ih =>
    rcases refuses_or_holds files catalog name with ⟨error, refuses⟩ | ⟨_, larger, holds, added⟩
    · exact ⟨_, .refused refuses⟩
    · obtain ⟨outcome, rest⟩ := ih larger
      exact ⟨outcome, .next holds added rest⟩

theorem loadCatalog_eq_iff {data : List String} {outcome : Except CommandError Catalog} :
    loadCatalog files data = outcome ↔ Loading files Catalog.empty data outcome := by
  refine ⟨fun ends => ?_, Loading.foldlM_load⟩
  obtain ⟨found, loading⟩ := exists_loading files Catalog.empty data
  rwa [← ends, loadCatalog, loading.foldlM_load]

theorem Answers.answerQuery_eq {data : List String} {text : Option String}
    {outcome : Except CommandError (List ResultRow)} (h : Answers files data text outcome) :
    answerQuery files text data = outcome := by
  cases h with
  | noQuery => rfl
  | notJson notJson =>
    simp only [answerQuery, ok_bind, readJson_of_none notJson]
    rfl
  | refused query loading =>
    simp only [answerQuery, ok_bind, readJson_eq_ok.mpr query, loadCatalog_eq_iff.mpr loading]
    rfl
  | answered query loading =>
    simp only [answerQuery, ok_bind, readJson_eq_ok.mpr query, loadCatalog_eq_iff.mpr loading]

theorem exists_answers (files : Files) (data : List String) (text : Option String) :
    ∃ outcome, Answers files data text outcome := by
  cases text with
  | none => exact ⟨_, .noQuery⟩
  | some text =>
    cases query : Json.read? text with
    | none => exact ⟨_, .notJson query⟩
    | some document =>
      obtain ⟨outcome, loading⟩ := exists_loading files Catalog.empty data
      cases outcome with
      | error error => exact ⟨_, .refused query loading⟩
      | ok catalog => exact ⟨_, .answered query loading⟩

theorem answerQuery_eq_iff {data : List String} {text : Option String}
    {outcome : Except CommandError (List ResultRow)} :
    answerQuery files text data = outcome ↔ Answers files data text outcome := by
  refine ⟨fun ends => ?_, Answers.answerQuery_eq⟩
  obtain ⟨found, answers⟩ := exists_answers files data text
  rwa [← ends, answers.answerQuery_eq]

/-! ## Splitting datasets over files -/

section Split

variable {documents : List Json} {lists : List (List Table)}
  (read : List.Forall₂ (fun document tables => DatasetFile.read document = .ok tables)
    documents lists)

include read

theorem read_joined : DatasetFile.read (DatasetFile.joined documents) = .ok lists.flatten := by
  rw [DatasetFile.read_eq_mapM, mapM_eq_ok, DatasetFile.joined, DatasetFile.parts]
  induction read with
  | nil => exact .nil
  | cons head _ ih =>
    rw [DatasetFile.read_eq_mapM, mapM_eq_ok] at head
    rw [List.flatMap_cons, List.flatten_cons]
    exact List.rel_append head ih

theorem foldlM_load_of_holds (holds : List.Forall₂ (Holds files) names documents) :
    names.foldlM (load files) catalog =
      (orError (catalog.addAll lists.flatten)).mapError .catalog := by
  induction holds generalizing catalog lists with
  | nil =>
    cases read
    rfl
  | cons head _ ih =>
    cases read with
    | cons first others =>
      -- The tables of the first file stand before those of the others, so they are added first.
      rw [List.foldlM_cons, load_of_holds head, Catalog.loadDocument_of_read first,
        List.flatten_cons, Catalog.orError_addAll_append, mapError_bind]
      exact bind_congr_ok fun larger _ => ih others

/-- Where one file ends and the next one begins makes no difference. -/
theorem loadCatalog_of_holds (holds : List.Forall₂ (Holds files) names documents) :
    loadCatalog files names =
      orError (Catalog.empty.loadDocument (DatasetFile.joined documents)) := by
  rw [loadCatalog, foldlM_load_of_holds read holds,
    Catalog.loadDocument_of_read (read_joined read)]

end Split

theorem loadCatalog_singleton {document : Json} (holds : Holds files name document) :
    loadCatalog files [name] = orError (Catalog.empty.loadDocument document) := by
  rw [loadCatalog, List.foldlM_cons, load_of_holds holds]
  exact bind_pure _

/-- A document is loaded up to the first dataset that is refused, files are loaded as one array of
their datasets, and a query ends as `Answers` says. Errors are told apart but for which of several
unexpected fields their texts name. -/
theorem loads_in_turn :
    (∀ (catalog : Catalog) (document : Json),
      (∀ defect, DatasetFile.read document = .error defect →
        catalog.loadDocument document = (catalog, some (.dataset defect))) ∧
      (∀ tables, DatasetFile.read document = .ok tables →
        ∃ done next error, catalog.loadDocument document = (next, error.map .catalog) ∧
          catalog.LongestHead tables done next ∧
          Catalog.RefusesNext next tables done error) ∧
      ∀ files name, Holds files name document →
        load files catalog name = orError (catalog.loadDocument document)) ∧
    (∀ (files : Files) (names : List String) (documents : List Json),
      List.Forall₂ (Holds files) names documents →
      (∀ document ∈ documents, ∃ tables, DatasetFile.read document = .ok tables) →
        loadCatalog files names =
          orError (Catalog.empty.loadDocument (DatasetFile.joined documents)) ∧
        ∀ (whole : Files) (name : String), Holds whole name (DatasetFile.joined documents) →
          loadCatalog files names = loadCatalog whole [name]) ∧
    ∀ (files : Files) (text : Option String) (data : List String)
      (outcome : Except CommandError (List ResultRow)),
      answerQuery files text data = outcome ↔ Answers files data text outcome := by
  refine ⟨fun catalog document => ⟨fun defect unread => ?_, fun tables read => ?_,
    fun files name => load_of_holds⟩, fun files names documents holds each => ?_,
    fun _ _ _ _ => answerQuery_eq_iff⟩
  · rw [loadDocument, unread]
  · obtain ⟨done, longest, stop⟩ := catalog.exists_longestHead tables
    exact ⟨done, _, _, by rw [loadDocument, read], longest, stop⟩
  · obtain ⟨lists, read⟩ := exists_forall₂.mpr each
    have joined := loadCatalog_of_holds read holds
    exact ⟨joined, fun whole name one => joined.trans (loadCatalog_singleton one).symm⟩

/-! ## The same dataset in two files -/

/-- Files with the texts of the given documents. -/
def holding (documents : List (String × Json)) : Files := fun name =>
  match Json.fieldOf? name documents with
  | some document => .ok document.compact
  | none => .error .notFound

theorem holds_holding {documents : List (String × Json)} {document : Json}
    (found : Json.fieldOf? name documents = some document) (readable : Json.Readable 0 document) :
    Holds (holding documents) name document :=
  ⟨document.compact, by rw [holding, found], readable.read?_write Json.Layout.blank_compact⟩

def hall : Json :=
  .object [("id", .string "hall"), ("kind", .string "rooms"),
    ("rows", .array [DatasetFile.roomItem])]

theorem readable_hall {opened : Nat} (room : opened + 2 < Json.Reader.maxDepth) :
    Json.Readable opened hall := by
  have string (depth : Nat) (s : String) : Json.Readable depth (.string s) := .string s
  have integer {depth : Nat} {n : Int} (small : n.natAbs < 1000) :
      Json.Readable depth (.number (.integer n)) := .integer (by omega) (by omega)
  have item : Json.Readable (opened + 2) DatasetFile.roomItem := by
    refine .object room (by decide) ?_
    simp [string, integer]
  have rows : Json.Readable (opened + 1) (.array [DatasetFile.roomItem]) :=
    .array (by omega) fun _ mem => List.mem_singleton.mp mem ▸ item
  refine .object (by omega) (by decide) ?_
  simp [string, rows]

theorem readable_halls {items : List Json} (same : ∀ item ∈ items, item = hall) :
    Json.Readable 0 (.array items) :=
  .array (by decide) fun item mem => same item mem ▸ readable_hall (by decide)

theorem exists_readTable_hall : ∃ table, DatasetFile.readTable hall = .ok table := by
  have row : ∃ row, DatasetFile.readRow DatasetFile.roomItem = .ok row := ⟨_, rfl⟩
  obtain ⟨row, read⟩ := row
  exact ⟨⟨"hall", .rooms, [row]⟩,
    DatasetFile.readTable_eq_ok.mpr ⟨"rooms", _, rfl, rfl, by cbv, rfl, .cons read .nil⟩⟩

/-- The files with the hall and with an array that has it again, and the file with both. -/
def apart : Files := holding [("hall", hall), ("again", .array [hall])]

def together : Files := holding [("both", .array [hall, hall])]

theorem loads_in_turn_halls :
    loadCatalog apart ["hall", "again"] = .error (.catalog (.duplicate "hall")) ∧
      loadCatalog apart ["hall", "again"] = loadCatalog together ["both"] := by
  have holds : List.Forall₂ (Holds apart) ["hall", "again"] [hall, .array [hall]] :=
    .cons (holds_holding rfl (readable_hall (by decide)))
      (.cons (holds_holding rfl (readable_halls (by simp))) .nil)
  have read : ∀ document ∈ [hall, .array [hall]],
      ∃ tables, DatasetFile.read document = .ok tables := by
    obtain ⟨table, read⟩ := exists_readTable_hall
    have each : [hall].mapM DatasetFile.readTable = .ok [table] :=
      mapM_eq_ok.mpr (.cons read .nil)
    simp only [DatasetFile.read_eq_mapM, List.forall_mem_cons]
    exact ⟨⟨_, each⟩, ⟨_, each⟩, nofun⟩
  have both : Holds together "both" (.array [hall, hall]) :=
    holds_holding rfl (readable_halls (by simp))
  have duplicate : (Catalog.empty.loadDocument (.array [hall, hall])).2 =
      some (.catalog (.duplicate "hall")) := by cbv
  obtain ⟨-, split, -⟩ := loads_in_turn
  obtain ⟨joined, same⟩ := split apart _ _ holds read
  exact ⟨joined.trans (orError_eq_error.mpr ⟨_, Prod.ext rfl duplicate⟩), same together _ both⟩

end Command

end CampusQuery
