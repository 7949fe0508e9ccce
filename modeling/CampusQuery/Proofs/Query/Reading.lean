import CampusQuery.Proofs.Query.Checks
import CampusQuery.Proofs.Query.Conditions

/-!
# From documents to plans

`Parts.Outlines` says that the parts of a document pass all checks but that of the conditions
(`ofDocument_eq_ok`), and `Parts.Reads` what plan they then stand for (`toPlan_eq_ok`). The two
together are `ofDocument_eq_ok_plan`: a plan comes from a document exactly if it is read from parts
that the document is made of.

Once a query has an outline, only its conditions can keep it from having a plan
(`Parts.Outlines.exists_reads`).
-/

namespace CampusQuery.Query

/-- The parts of an outline, with the strings that it has been checked with. -/
def Outline.parts (outline : Outline) (columns : List String) (group : Option (List String)) :
    Parts :=
  ⟨outline.dataset, outline.conditions, outline.options, columns, outline.grouping, group,
    outline.keys.toList⟩

theorem readSection_eq_ok {part : Part} {members fields : List (String × Json)} :
    readSection part members = .ok fields ↔
      Json.fieldOf? part.name members = some (.object fields) := by
  unfold readSection
  split
  · rename_i found
    simp [found]
  · rename_i other _
    simp_all
  · rename_i found
    simp [found]

theorem readFirstColumn_eq_ok {options : List (String × Json)} {item : Json} :
    readFirstColumn options = .ok item ↔
      ∃ items, Json.fieldOf? "COLUMNS" options = some (.array (item :: items)) := by
  unfold readFirstColumn
  split
  · rename_i found
    simp [found]
  · rename_i other _
    simp_all
  · rename_i found
    simp [found]

theorem readGrouping_eq_ok {members : List (String × Json)}
    {grouping : Option (List (String × Json))} :
    readGrouping members = .ok grouping ↔
      IsOptionalObject (Json.fieldOf? "TRANSFORMATIONS" members) grouping := by
  unfold readGrouping
  split
  · rename_i found
    rw [found]
    exact ⟨fun | rfl => .absent, fun | .absent => rfl⟩
  · rename_i found
    rw [found]
    exact ⟨fun | rfl => .null, fun | .null => rfl⟩
  · rename_i fields found
    rw [found]
    exact ⟨fun | rfl => .object fields, fun | .object _ => rfl⟩
  · rename_i document null object found
    rw [found]
    refine ⟨nofun, fun h => ?_⟩
    cases h with
    | null => exact absurd rfl null
    | object fields => exact absurd rfl (object fields)

theorem readDataset_eq_ok {datasets : List Descriptor} {item : Json} {dataset : Descriptor} :
    readDataset datasets item = .ok dataset ↔
      ∃ first, item = .string first ∧ Qualifies dataset.id first ∧
        datasets.find? (·.id = dataset.id) = some dataset := by
  simp only [readDataset, bind_eq_ok, requireString_eq_ok, ← qualifier_eq_iff]
  refine ⟨fun ⟨first, hi, h⟩ => ?_, fun ⟨first, hi, hq, found⟩ => ⟨first, hi, ?_⟩⟩
  · split at h
    · rename_i other found
      obtain rfl := pure_eq_ok.mp h
      have same : other.id = qualifier first := by simpa using List.find?_some found
      exact ⟨first, hi, same.symm, by rwa [same]⟩
    · cases h
  · rw [hq, found]
    rfl

theorem IsTarget.not_mem {datasets : List Descriptor} {columns : List String}
    {dataset : Descriptor} (h : IsTarget datasets columns dataset) : '_' ∉ dataset.id.toList := by
  obtain ⟨⟨first, _, unqualified, _⟩, _⟩ := h
  exact unqualified

/-- The checks before the conditions pass exactly for the parts of a query. -/
theorem ofDocument_eq_ok {datasets : List Descriptor} {document : Json} {outline : Outline} :
    Outline.ofDocument datasets document = .ok outline ↔
      ∃ columns group, (outline.parts columns group).Outlines datasets document := by
  simp only [Outline.ofDocument, bind_eq_ok, requireObject_eq_ok, checkKeys_eq_ok,
    readSection_eq_ok, readFirstColumn_eq_ok, readGrouping_eq_ok, readDataset_eq_ok, pure_eq_ok]
  refine ⟨fun ⟨members, hd, _, among, conditions, hw, options, ho, _, ⟨items, hf⟩, grouping, ht,
    dataset, ⟨first, hi, hq, found⟩, keys, hk, _, checked, h⟩ => ?_, fun ⟨columns, group, h⟩ => ?_⟩
  · subst h
    have hid : '_' ∉ dataset.id.toList := hq.1
    obtain ⟨group, grouped⟩ := (readKeys_eq_ok hid).mp hk
    obtain ⟨columns, shown⟩ := (checkOptions_eq_ok hid grouped).mp checked
    refine ⟨columns, group, ⟨members, hd, among, hw, ho, ht⟩, ⟨⟨first, ?_, hq⟩, found⟩, grouped,
      shown⟩
    have heads := hf.symm.trans shown.columns_eq
    cases columns with
    | nil => simp at heads
    | cons column columns =>
      rw [hi, Option.some.injEq, Json.array.injEq, List.map_cons, List.cons.injEq,
        Json.string.injEq] at heads
      rw [heads.1]
      rfl
  · obtain ⟨members, hd, among, hw, ho, ht⟩ := h.sections
    obtain ⟨⟨first, head, hq⟩, found⟩ := h.target
    have hid : '_' ∉ outline.dataset.id.toList := hq.1
    obtain ⟨rest, hc⟩ : ∃ rest, columns = first :: rest := List.head?_eq_some_iff.mp head
    refine ⟨members, hd, (), among, outline.conditions, hw, outline.options, ho, .string first,
      ⟨rest.map .string, ?_⟩, outline.grouping, ht, outline.dataset, ⟨first, rfl, hq, found⟩,
      outline.keys, (readKeys_eq_ok hid).mpr ⟨group, h.grouping⟩, (),
      (checkOptions_eq_ok hid h.grouping).mpr ⟨columns, h.options⟩, rfl⟩
    have columns_eq := h.options.columns_eq
    rwa [Outline.parts, hc] at columns_eq

theorem IsGrouping.exists_keys {dataset : Descriptor} {grouping : Option (List (String × Json))}
    {group : Option (List String)} {keys : List String}
    (h : IsGrouping dataset grouping group keys) : ∃ applyKeys : ApplyKeys, applyKeys.toList = keys := by
  cases h with
  | none => exact ⟨.empty, rfl⟩
  | some h => exact ⟨⟨_, h.keys_nodup, h.keys_proper⟩, rfl⟩

theorem Parts.Outlines.exists_outline {parts : Parts} {datasets : List Descriptor}
    {document : Json} (h : parts.Outlines datasets document) :
    ∃ outline, Outline.ofDocument datasets document = .ok outline ∧
      parts = outline.parts parts.columns parts.group := by
  obtain ⟨keys, hk⟩ := h.grouping.exists_keys
  have same : parts = Outline.parts ⟨parts.dataset, keys, parts.conditions, parts.options,
      parts.grouping⟩ parts.columns parts.group := by
    rw [Outline.parts, hk]
  exact ⟨_, ofDocument_eq_ok.mpr ⟨_, _, same ▸ h⟩, same⟩

/-! ## What the parts stand for -/

/-- The filter of `WHERE`. -/
inductive ReadsConditions (dataset : Descriptor) : List (String × Json) → Filter → Prop
  | all : ReadsConditions dataset [] .all
  | filter {members : List (String × Json)} {filter : Filter}
    (h : ReadsFilter dataset (.object members) filter) : ReadsConditions dataset members filter

def ReadsRule (dataset : Descriptor) (item : Json) (rule : ApplyRule) : Prop :=
  ∃ reference, item = .object [(rule.key, .object [(rule.aggregate.keyword, .string reference)])] ∧
    RefersTo dataset reference rule.field

structure ReadsTransformation (dataset : Descriptor) (members : List (String × Json))
    (t : Transformation) : Prop where
  group : ∃ references : List String,
    Json.fieldOf? "GROUP" members = some (.array (references.map .string)) ∧
      List.Forall₂ (RefersTo dataset) references t.group
  rules : ∃ items, Json.fieldOf? "APPLY" members = some (.array items) ∧
    List.Forall₂ (ReadsRule dataset) items t.rules

/-- The order, of which a lone key is upwards. -/
inductive ReadsOrder (dataset : Descriptor) (keys : List String) :
    Option Json → Option Order → Prop
  | absent : ReadsOrder dataset keys none none
  | null : ReadsOrder dataset keys (some .null) none
  | key {reference : String} {column : Column} (h : Resolves dataset keys reference column) :
    ReadsOrder dataset keys (some (.string reference)) (some ⟨.up, [column]⟩)
  | object {members : List (String × Json)} {direction : Direction} {references : List String}
    {columns : List Column} (dir : Json.fieldOf? "dir" members = some (.string direction.word))
    (listed : Json.fieldOf? "keys" members = some (.array (references.map .string)))
    (each : List.Forall₂ (Resolves dataset keys) references columns) :
    ReadsOrder dataset keys (some (.object members)) (some ⟨direction, columns⟩)

/-- The plan that the parts of a query stand for. -/
structure Parts.Reads (parts : Parts) (plan : Plan) : Prop where
  dataset : plan.dataset = parts.dataset
  filter : ReadsConditions parts.dataset parts.conditions plan.filter
  columns : List.Forall₂ (Resolves parts.dataset parts.keys) parts.columns plan.columns
  order : ReadsOrder parts.dataset parts.keys (Json.fieldOf? "ORDER" parts.options) plan.order
  transformation : Option.Rel (ReadsTransformation parts.dataset) parts.grouping plan.transformation

section Dataset

variable {dataset : Descriptor} (hid : '_' ∉ dataset.id.toList)

include hid

theorem readConditions_eq_ok {members : List (String × Json)} {filter : Filter} :
    readConditions dataset members = .ok filter ↔ ReadsConditions dataset members filter := by
  unfold readConditions
  split
  · refine ⟨fun | rfl => .all, fun h => ?_⟩
    cases h with
    | all => rfl
    | filter h => nomatch h
  · rename_i nonempty
    rw [readFilter_eq_ok hid]
    refine ⟨.filter, fun h => ?_⟩
    cases h with
    | all => exact absurd rfl nonempty
    | filter h => exact h

theorem readRule_eq_ok {item : Json} {rule : ApplyRule} :
    readRule dataset item = .ok rule ↔ ReadsRule dataset item rule := by
  simp only [readRule, bind_eq_ok, singleMember_eq_ok, Prod.exists, readAggregate_eq_ok,
    resolveField_eq_ok hid, pure_eq_ok, ReadsRule, RefersTo]
  constructor
  · intro h
    obtain ⟨key, body, hi, aggregate, reference, hb, field, found, rfl⟩ := h
    exact ⟨reference, by rw [hi, hb], field, found, rfl⟩
  · intro h
    obtain ⟨reference, hi, field, found, hf⟩ := h
    exact ⟨rule.key, _, hi, rule.aggregate, reference, rfl, field, found, by rw [hf]⟩

theorem readRules_eq_ok {members : List (String × Json)} {rules : List ApplyRule} :
    readRules dataset members = .ok rules ↔
      ∃ items, Json.fieldOf? "APPLY" members = some (.array items) ∧
        List.Forall₂ (ReadsRule dataset) items rules := by
  unfold readRules
  split
  · rename_i items found
    simp [mapM_eq_ok, readRule_eq_ok hid, found]
  · rename_i other
    exact ⟨nofun, fun ⟨_, found, _⟩ => absurd found (other _)⟩

theorem readTransformation_eq_ok {members : List (String × Json)} {t : Transformation} :
    readTransformation dataset members = .ok t ↔ ReadsTransformation dataset members t := by
  simp only [readTransformation, bind_eq_ok, readGroup_eq_ok hid, readRules_eq_ok hid, pure_eq_ok]
  refine ⟨fun ⟨group, hg, rules, hr, h⟩ => ?_, fun h => ⟨t.group, h.group, t.rules, h.rules, rfl⟩⟩
  subst h
  exact ⟨hg, hr⟩

theorem mapM_readColumn {keys : ApplyKeys} {part : Part} {items : List Json}
    {columns : List Column} :
    items.mapM (readColumn dataset keys part) = .ok columns ↔
      ∃ references : List String, items = references.map .string ∧
        List.Forall₂ (Resolves dataset keys.toList) references columns := by
  simp only [mapM_eq_ok, readColumn, bind_eq_ok, requireString_eq_ok, resolveColumn_eq_ok hid,
    forall₂_string]

theorem readColumns_eq_ok {keys : ApplyKeys} {members : List (String × Json)}
    {references : List String}
    (hm : Json.fieldOf? "COLUMNS" members = some (.array (references.map .string)))
    {columns : List Column} :
    readColumns dataset keys members = .ok columns ↔
      List.Forall₂ (Resolves dataset keys.toList) references columns := by
  simp only [readColumns, hm, mapM_readColumn hid, List.map_inj_right fun _ _ => Json.string.inj,
    exists_eq_left']

theorem readOrderKeys_eq_ok {keys : ApplyKeys} {members : List (String × Json)}
    {columns : List Column} :
    readOrderKeys dataset keys members = .ok columns ↔
      ∃ references : List String,
        Json.fieldOf? "keys" members = some (.array (references.map .string)) ∧
          List.Forall₂ (Resolves dataset keys.toList) references columns := by
  unfold readOrderKeys
  split
  · rename_i items found
    simp [mapM_readColumn hid, found]
  · rename_i other
    exact ⟨nofun, fun ⟨_, found, _⟩ => absurd found (other _)⟩

theorem readOrder_eq_ok {keys : ApplyKeys} {document : Option Json} {order : Option Order} :
    readOrder dataset keys document = .ok order ↔
      ReadsOrder dataset keys.toList document order := by
  match document with
  | none => exact ⟨fun | rfl => .absent, fun | .absent => rfl⟩
  | some .null => exact ⟨fun | rfl => .null, fun | .null => rfl⟩
  | some (.string reference) =>
    simp only [readOrder, bind_eq_ok, readColumn, requireString_eq_ok, resolveColumn_eq_ok hid,
      pure_eq_ok, Json.string.injEq, exists_eq_left']
    exact ⟨fun ⟨column, h, ho⟩ => ho ▸ .key h, fun | .key h => ⟨_, h, rfl⟩⟩
  | some (.object members) =>
    simp only [readOrder, bind_eq_ok, readDirection_eq_ok, readOrderKeys_eq_ok hid, pure_eq_ok]
    exact ⟨fun ⟨direction, hd, columns, ⟨references, hk, each⟩, ho⟩ => ho ▸ .object hd hk each,
      fun | .object hd hk each => ⟨_, hd, _, ⟨_, hk, each⟩, rfl⟩⟩
  | some (.bool _) | some (.number _) | some (.array _) => exact ⟨nofun, nofun⟩

end Dataset

/-- An outline is read as the plans that its parts stand for. -/
theorem toPlan_eq_ok {datasets : List Descriptor} {document : Json} {outline : Outline}
    {columns : List String} {group : Option (List String)}
    (h : (outline.parts columns group).Outlines datasets document) {plan : Plan} :
    outline.toPlan = .ok plan ↔ (outline.parts columns group).Reads plan := by
  have hid : '_' ∉ outline.dataset.id.toList := h.target.not_mem
  have hc : Json.fieldOf? "COLUMNS" outline.options = some (.array (columns.map .string)) :=
    h.options.columns_eq
  simp only [Outline.toPlan, readOptions, bind_eq_ok, readConditions_eq_ok hid,
    readColumns_eq_ok hid hc, readOrder_eq_ok hid, optionMapM_eq_ok, readTransformation_eq_ok hid,
    pure_eq_ok]
  refine ⟨fun ⟨filter, hf, _, ⟨shown, each, order, ho, hs⟩, t, ht, hp⟩ => ?_,
    fun r => ⟨plan.filter, r.filter, (plan.columns, plan.order),
      ⟨plan.columns, r.columns, plan.order, r.order, rfl⟩, plan.transformation, r.transformation, ?_⟩⟩
  · subst hs hp
    exact ⟨rfl, hf, each, ho, ht⟩
  · have hd : plan.dataset = outline.dataset := r.dataset
    rw [← hd]

/-- A plan comes from a document exactly if it is read from the parts of the document. -/
theorem ofDocument_eq_ok_plan {datasets : List Descriptor} {document : Json} {plan : Plan} :
    Plan.ofDocument datasets document = .ok plan ↔
      ∃ parts : Parts, parts.Outlines datasets document ∧ parts.Reads plan := by
  simp only [Plan.ofDocument, bind_eq_ok]
  refine ⟨fun ⟨outline, ho, hp⟩ => ?_, fun ⟨parts, outlines, reads⟩ => ?_⟩
  · obtain ⟨columns, group, outlines⟩ := ofDocument_eq_ok.mp ho
    exact ⟨_, outlines, (toPlan_eq_ok outlines).mp hp⟩
  · obtain ⟨outline, ho, same⟩ := outlines.exists_outline
    rw [same] at outlines reads
    exact ⟨outline, ho, (toPlan_eq_ok outlines).mpr reads⟩

theorem IsOrder.exists_reads {dataset : Descriptor} {group : Option (List String)}
    {columns keys : List String} (hc : ∀ reference ∈ columns, IsColumn dataset group keys reference)
    {document : Option Json} (h : IsOrder columns keys document) :
    ∃ order, ReadsOrder dataset keys document order := by
  match document, h with
  | none, _ => exact ⟨_, .absent⟩
  | some .null, _ => exact ⟨_, .null⟩
  | some (.string reference), h =>
    obtain ⟨column, resolves⟩ := IsOrderKey.resolves hc h
    exact ⟨_, .key resolves⟩
  | some (.object members), ⟨_, ⟨direction, hd⟩, references, hk, _, shown⟩ =>
    obtain ⟨columns, each⟩ :=
      exists_forall₂.mpr fun reference mem => (shown reference mem).resolves hc
    exact ⟨_, .object hd hk each⟩

theorem IsGrouping.exists_reads {dataset : Descriptor} {grouping : Option (List (String × Json))}
    {group : Option (List String)} {keys : List String} (h : IsGrouping dataset grouping group keys) :
    ∃ t, Option.Rel (ReadsTransformation dataset) grouping t := by
  cases h with
  | none => exact ⟨_, .none⟩
  | some h =>
    obtain ⟨names, named⟩ := h.exists_names
    obtain ⟨items, hi, ruled⟩ := h.rules
    have read : ∀ item ∈ items, ∃ rule, ReadsRule dataset item rule := by
      intro item mem
      obtain ⟨key, aggregate, reference, field, he, found, _⟩ :=
        exists_forall₂.mp ⟨_, ruled⟩ item mem
      exact ⟨⟨key, aggregate, field.name⟩, reference, he, field, found, rfl⟩
    obtain ⟨rules, each⟩ := exists_forall₂.mpr read
    exact ⟨Option.some ⟨names, rules⟩, .some ⟨⟨_, h.group_eq, named⟩, items, hi, each⟩⟩

/-- What has an outline has a plan as soon as its conditions have a filter. -/
theorem Parts.Outlines.exists_reads {parts : Parts} {datasets : List Descriptor} {document : Json}
    (h : parts.Outlines datasets document) {filter : Filter}
    (hf : ReadsConditions parts.dataset parts.conditions filter) :
    ∃ plan, parts.Reads plan ∧ plan.filter = filter := by
  obtain ⟨columns, each⟩ :=
    exists_forall₂.mpr fun reference mem => (h.options.columns_ok reference mem).resolves
  obtain ⟨order, ho⟩ := h.options.order.exists_reads h.options.columns_ok
  obtain ⟨t, ht⟩ := h.grouping.exists_reads
  exact ⟨⟨parts.dataset, filter, columns, order, t⟩, ⟨rfl, hf, each, ho, ht⟩, rfl⟩

end CampusQuery.Query
