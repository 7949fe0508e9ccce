import CampusQuery.Proofs.Query.Reading

/-!
# The dataset that a document names

A document names a dataset by the qualifier of its first column, provided that nothing is wrong with
the sections before the datasets are looked at (`Names`). If it is not there, the document is
refused for that (`Names.ofDocument_of_absent`). Of all datasets the reader looks at this one alone:
`ofDocument_congr` is that two lists of datasets give the same plan or the same defect if they have
the same first dataset under the id, and `names_of_plan` that a plan is for the one that is named.

Of this one it looks at the id and the kind: a plan stays the same if the dataset that is named has
got another number of rows (`ofDocument_of_sameKind`).
-/

namespace CampusQuery.Query

/-- The document's sections are in place, and its first column is qualified with the id. -/
def Names (document : Json) (id : String) : Prop :=
  ∃ members conditions options grouping first rest,
    document = .object members ∧
      KeysAmong ["WHERE", "OPTIONS", "TRANSFORMATIONS"] members ∧
      Json.fieldOf? "WHERE" members = some (.object conditions) ∧
      Json.fieldOf? "OPTIONS" members = some (.object options) ∧
      Json.fieldOf? "COLUMNS" options = some (.array (.string first :: rest)) ∧
      IsOptionalObject (Json.fieldOf? "TRANSFORMATIONS" members) grouping ∧
      Qualifies id first

theorem readDataset_congr {a b : List Descriptor} {item : Json}
    (same : ∀ first, item = .string first →
      a.find? (·.id = qualifier first) = b.find? (·.id = qualifier first)) :
    readDataset a item = readDataset b item := by
  refine bind_congr_ok fun first h => ?_
  rw [same first (requireString_eq_ok.mp h)]

/-- The outline of a document depends on the datasets only through the one that it names. -/
theorem outline_congr {a b : List Descriptor} {document : Json}
    (same : ∀ id, Names document id → a.find? (·.id = id) = b.find? (·.id = id)) :
    Outline.ofDocument a document = Outline.ofDocument b document := by
  -- What the steps up to the dataset have found makes it the one that the document names.
  refine bind_congr_ok fun members isObject => ?_
  refine bind_congr_ok fun _ among => ?_
  refine bind_congr_ok fun conditions hasConditions => ?_
  refine bind_congr_ok fun options hasOptions => ?_
  refine bind_congr_ok fun firstColumn hasColumn => ?_
  refine bind_congr_ok fun grouping hasGrouping => ?_
  have found : readDataset a firstColumn = readDataset b firstColumn := by
    refine readDataset_congr fun first isString => same _ ?_
    obtain ⟨rest, hasColumns⟩ := readFirstColumn_eq_ok.mp hasColumn
    rw [isString] at hasColumns
    exact ⟨members, conditions, options, grouping, first, rest, requireObject_eq_ok.mp isObject,
      checkKeys_eq_ok.mp among, readSection_eq_ok.mp hasConditions,
      readSection_eq_ok.mp hasOptions, hasColumns, readGrouping_eq_ok.mp hasGrouping,
      qualifier_eq_iff.mp rfl⟩
  rw [found]

/-- The plan of a document depends on the datasets only through the one that it names. -/
theorem ofDocument_congr {a b : List Descriptor} {document : Json}
    (same : ∀ id, Names document id → a.find? (·.id = id) = b.find? (·.id = id)) :
    Plan.ofDocument a document = Plan.ofDocument b document := by
  rw [Plan.ofDocument, Plan.ofDocument, outline_congr same]

theorem Parts.Outlines.names {parts : Parts} {datasets : List Descriptor} {document : Json}
    (h : parts.Outlines datasets document) : Names document parts.dataset.id := by
  obtain ⟨members, isObject, among, conditions, options, grouping⟩ := h.sections
  obtain ⟨⟨first, head, qualifies⟩, _⟩ := h.target
  obtain ⟨rest, columns⟩ := List.head?_eq_some_iff.mp head
  have hasColumns := h.options.columns_eq
  rw [columns, List.map_cons] at hasColumns
  exact ⟨members, parts.conditions, parts.options, parts.grouping, first, _, isObject, among,
    conditions, options, hasColumns, grouping, qualifies⟩

theorem names_of_plan {datasets : List Descriptor} {document : Json} {plan : Plan}
    (h : Plan.ofDocument datasets document = .ok plan) : Names document plan.dataset.id := by
  obtain ⟨parts, outlines, reads⟩ := ofDocument_eq_ok_plan.mp h
  rw [reads.dataset]
  exact outlines.names

/-- The reader gets as far as the dataset that is named, whatever comes after it. -/
theorem Names.ofDocument_of_absent {datasets : List Descriptor} {document : Json} {id : String}
    (h : Names document id) (absent : ∀ dataset ∈ datasets, dataset.id ≠ id) :
    Plan.ofDocument datasets document = .error (.unknownDataset id) := by
  obtain ⟨members, conditions, options, grouping, first, rest, isObject, among, hasConditions,
    hasOptions, hasColumns, hasGrouping, qualifies⟩ := h
  have missing : datasets.find? (·.id = id) = none :=
    List.find?_eq_none.mpr fun dataset mem => by simpa using absent dataset mem
  have unknown : readDataset datasets (.string first) = .error (.unknownDataset id) := by
    rw [readDataset, requireString_eq_ok.mpr rfl, ok_bind, qualifier_eq_iff.mpr qualifies, missing]
  have keysChecked : checkKeys .query ["WHERE", "OPTIONS", "TRANSFORMATIONS"] members = .ok () :=
    checkKeys_eq_ok.mpr among
  have conditionsRead : readSection .conditions members = .ok conditions :=
    readSection_eq_ok.mpr hasConditions
  have optionsRead : readSection .options members = .ok options :=
    readSection_eq_ok.mpr hasOptions
  have refused : Outline.ofDocument datasets document = .error (.unknownDataset id) := by
    rw [Outline.ofDocument, requireObject_eq_ok.mpr isObject, ok_bind, keysChecked, ok_bind,
      conditionsRead, ok_bind, optionsRead, ok_bind,
      readFirstColumn_eq_ok.mpr ⟨rest, hasColumns⟩, ok_bind, readGrouping_eq_ok.mpr hasGrouping,
      ok_bind, unknown, error_bind]
  rw [Plan.ofDocument, refused, error_bind]

/-- A document names one dataset at most. -/
theorem Names.unique {document : Json} {a b : String} (ha : Names document a)
    (hb : Names document b) : a = b := by
  obtain ⟨_, _, _, _, _, _, rfl, _, _, options, columns, _, first⟩ := ha
  obtain ⟨_, _, _, _, _, _, same, _, _, options', columns', _, other⟩ := hb
  cases same
  rw [options, Option.some.injEq, Json.object.injEq] at options'
  rw [options', columns'] at columns
  simp only [Option.some.injEq, Json.array.injEq, List.cons.injEq, Json.string.injEq] at columns
  rw [← qualifier_eq_iff.mpr first, ← qualifier_eq_iff.mpr other, columns.1]

/-! ## The dataset with another number of rows -/

section Recount

variable {dataset : Descriptor} (count : Nat)

theorem ReadsFilter.recount {document : Json} {filter : Filter}
    (h : ReadsFilter dataset document filter) :
    ReadsFilter { dataset with rowCount := count } document filter := by
  refine h.induction (motive := ReadsFilter { dataset with rowCount := count })
    (fun nonempty each => .and nonempty (each.imp fun _ _ h => h.2))
    (fun nonempty each => .or nonempty (each.imp fun _ _ h => h.2))
    (fun _ h => .not h) ?compare ?is
  case compare => exact fun comparison _ _ n found numeric => .compare comparison n found numeric
  case is => exact fun found text written => .is found text written

theorem ReadsConditions.recount {members : List (String × Json)} {filter : Filter}
    (h : ReadsConditions dataset members filter) :
    ReadsConditions { dataset with rowCount := count } members filter := by
  cases h with
  | all => exact .all
  | filter h => exact .filter (h.recount count)

theorem Resolves.recount {keys : List String} {reference : String} {column : Column}
    (h : Resolves dataset keys reference column) :
    Resolves { dataset with rowCount := count } keys reference column := by
  cases h with
  | apply known => exact .apply known
  | field unknown found => exact .field unknown found

theorem ReadsOrder.recount {keys : List String} {document : Option Json} {order : Option Order}
    (h : ReadsOrder dataset keys document order) :
    ReadsOrder { dataset with rowCount := count } keys document order := by
  cases h with
  | absent => exact .absent
  | null => exact .null
  | key resolves => exact .key (resolves.recount count)
  | object dir listed each => exact .object dir listed (each.imp fun _ _ h => h.recount count)

theorem IsGrouping.recount {grouping : Option (List (String × Json))}
    {group : Option (List String)} {keys : List String}
    (h : IsGrouping dataset grouping group keys) :
    IsGrouping { dataset with rowCount := count } grouping group keys := by
  cases h with
  | none => exact .none
  | some h =>
    exact .some ⟨h.keysAmong, h.group_eq, h.group_nonempty, h.group_refers, h.rules, h.keys_nodup,
      h.keys_proper⟩

theorem Parts.Outlines.recount {parts : Parts} {a b : List Descriptor} {document : Json}
    (h : parts.Outlines a document)
    (found : b.find? (·.id = parts.dataset.id) = some { parts.dataset with rowCount := count }) :
    Parts.Outlines { parts with dataset := { parts.dataset with rowCount := count } } b document where
  sections := h.sections
  target := ⟨h.target.1, found⟩
  grouping := h.grouping.recount count
  options := ⟨h.options.keysAmong, h.options.columns_eq, h.options.columns_ok, h.options.order⟩

theorem Parts.Reads.recount {parts : Parts} {plan : Plan} (h : parts.Reads plan) :
    Parts.Reads { parts with dataset := { parts.dataset with rowCount := count } }
      { plan with dataset := { plan.dataset with rowCount := count } } where
  dataset := by rw [h.dataset]
  filter := h.filter.recount count
  columns := h.columns.imp fun _ _ h => h.recount count
  order := h.order.recount count
  transformation :=
    match parts.grouping, plan.transformation, h.transformation with
    | _, _, .none => .none
    | _, _, .some h => .some ⟨h.group, h.rules⟩

end Recount

/-- Of the dataset that is named, the reader looks at the id and the kind alone. -/
theorem ofDocument_of_sameKind {a b : List Descriptor} {document : Json} {plan : Plan}
    (h : Plan.ofDocument a document = .ok plan) {dataset : Descriptor}
    (found : b.find? (·.id = plan.dataset.id) = some dataset)
    (kind : dataset.kind = plan.dataset.kind) :
    Plan.ofDocument b document = .ok { plan with dataset := dataset } := by
  obtain ⟨parts, outlines, reads⟩ := ofDocument_eq_ok_plan.mp h
  have id : dataset.id = plan.dataset.id := by simpa using List.find?_some found
  have same : dataset = { plan.dataset with rowCount := dataset.rowCount } := by
    simp only [← id, ← kind]
  rw [same] at found ⊢
  rw [reads.dataset] at found
  exact ofDocument_eq_ok_plan.mpr ⟨_, outlines.recount _ found, reads.recount _⟩
end CampusQuery.Query
