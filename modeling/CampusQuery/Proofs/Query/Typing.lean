import CampusQuery.Proofs.Query.Reading

/-!
# Plans are well typed

`Plan.WellTyped` says what every plan that is made from a document may be relied on for
(`wellTyped`): its filter compares numbers with numbers and matches texts with patterns, its rules
take numbers unless they count, and its columns and order keys name something that the rows still
have once they are grouped (`Column.InScope`).
-/

namespace CampusQuery

def Kind.HasField (kind : Kind) (name : String) : Prop := ∃ field ∈ kind.fields, field.name = name

/-- A filter other than `all` on rows of the kind. -/
inductive Filter.WellTyped (kind : Kind) : Filter → Prop
  | and {children : List Filter} (nonempty : children ≠ [])
    (each : ∀ child ∈ children, WellTyped kind child) : WellTyped kind (.and children)
  | or {children : List Filter} (nonempty : children ≠ [])
    (each : ∀ child ∈ children, WellTyped kind child) : WellTyped kind (.or children)
  | not {child : Filter} (h : WellTyped kind child) : WellTyped kind (.not child)
  | compare (comparison : Comparison) {field : Field} (literal : Binary64)
    (found : field ∈ kind.fields) (numeric : field.type = .numeric) :
    WellTyped kind (.compare comparison field.name literal)
  | is {field : Field} {pattern : Pattern} (found : field ∈ kind.fields)
    (text : field.type = .text) (plain : '*' ∉ pattern.text.toList) :
    WellTyped kind (.is field.name pattern)

def ApplyRule.WellTyped (kind : Kind) (rule : ApplyRule) : Prop :=
  ∃ field ∈ kind.fields, field.name = rule.field ∧
    (rule.aggregate = .count ∨ field.type = .numeric)

structure Transformation.WellTyped (kind : Kind) (t : Transformation) : Prop where
  group_ne_nil : t.group ≠ []
  group : ∀ name ∈ t.group, kind.HasField name
  rule : ∀ rule ∈ t.rules, rule.WellTyped kind
  keys_nodup : (t.rules.map ApplyRule.key).Nodup
  keys_proper : ∀ rule ∈ t.rules, rule.key ≠ "" ∧ '_' ∉ rule.key.toList

/-- The columns that rows of the kind have after a transformation, if there is one. -/
inductive Column.InScope (kind : Kind) : Option Transformation → Column → Prop
  | field {name : String} (h : kind.HasField name) : InScope kind none (.field name)
  | group {t : Transformation} {name : String} (h : name ∈ t.group) :
    InScope kind (some t) (.field name)
  | apply {t : Transformation} {rule : ApplyRule} (h : rule ∈ t.rules) :
    InScope kind (some t) (.apply rule.key)

structure Plan.WellTyped (plan : Plan) : Prop where
  filter : plan.filter = .all ∨ plan.filter.WellTyped plan.dataset.kind
  transformation : ∀ t ∈ plan.transformation, t.WellTyped plan.dataset.kind
  columns_ne_nil : plan.columns ≠ []
  column : ∀ column ∈ plan.columns, column.InScope plan.dataset.kind plan.transformation
  order : ∀ order ∈ plan.order, order.keys ≠ [] ∧
    ∀ key ∈ order.keys, key.InScope plan.dataset.kind plan.transformation

namespace Query

theorem wellTyped_children {kind : Kind} {R : Json → Filter → Prop} {items : List Json}
    {filters : List Filter} (nonempty : items ≠ [])
    (each : List.Forall₂ (fun item filter => R item filter ∧ filter.WellTyped kind) items filters) :
    filters ≠ [] ∧ ∀ filter ∈ filters, filter.WellTyped kind := by
  refine ⟨ne_nil_of_forall₂ each nonempty, fun filter mem => ?_⟩
  obtain ⟨_, _, _, typed⟩ := exists_of_mem_right each mem
  exact typed

theorem ReadsFilter.wellTyped {dataset : Descriptor} {document : Json} {filter : Filter}
    (h : ReadsFilter dataset document filter) : filter.WellTyped dataset.kind := by
  refine ReadsFilter.induction (motive := fun _ filter => filter.WellTyped dataset.kind)
    ?and ?or ?not ?compare ?is h
  case and =>
    intro items filters nonempty each
    obtain ⟨children, typed⟩ := wellTyped_children nonempty each
    exact .and children typed
  case or =>
    intro items filters nonempty each
    obtain ⟨children, typed⟩ := wellTyped_children nonempty each
    exact .or children typed
  case not =>
    intro item filter _ typed
    exact .not typed
  case compare =>
    intro comparison reference field n found numeric
    exact .compare comparison _ found.1 numeric
  case is =>
    intro reference raw field pattern found text written
    exact .is found.1 text (Pattern.ofText?_eq_some written).1

theorem ReadsConditions.wellTyped {dataset : Descriptor} {members : List (String × Json)}
    {filter : Filter} (h : ReadsConditions dataset members filter) :
    filter = .all ∨ filter.WellTyped dataset.kind := by
  cases h with
  | all => exact .inl rfl
  | filter h => exact .inr h.wellTyped

/-- The rule of an item has the key that the item declares. -/
theorem IsRule.wellTyped {dataset : Descriptor} {item : Json} {key : String} {rule : ApplyRule}
    (is : IsRule dataset item key) (reads : ReadsRule dataset item rule) :
    rule.key = key ∧ rule.WellTyped dataset.kind := by
  obtain ⟨aggregate, reference, field, hi, found, typed⟩ := is
  obtain ⟨other, ho, named, ⟨_, hn⟩, hf⟩ := reads
  rw [hi] at ho
  simp only [Json.object.injEq, List.cons.injEq, Prod.mk.injEq, Json.string.injEq, and_true] at ho
  obtain ⟨hk, hw, hr⟩ := ho
  have same : aggregate = rule.aggregate :=
    Option.some.inj ((Aggregate.ofKeyword?_eq_some.mpr rfl).symm.trans
      (Aggregate.ofKeyword?_eq_some.mpr hw))
  have name : field.name = rule.field := by
    rw [← hf]
    exact qualified_inj.mp (found.2.symm.trans (hr.trans hn))
  exact ⟨hk.symm, field, found.1, name, same ▸ typed⟩

theorem forall₂_rules {dataset : Descriptor} {items : List Json} {keys : List String}
    {rules : List ApplyRule} (is : List.Forall₂ (IsRule dataset) items keys)
    (reads : List.Forall₂ (ReadsRule dataset) items rules) :
    rules.map ApplyRule.key = keys ∧ ∀ rule ∈ rules, rule.WellTyped dataset.kind := by
  induction is generalizing rules with
  | nil =>
    cases reads
    simp
  | cons head _ ih =>
    cases reads with
    | cons read rest =>
      obtain ⟨key, typed⟩ := head.wellTyped read
      obtain ⟨keys, each⟩ := ih rest
      exact ⟨by rw [List.map_cons, key, keys], List.forall_mem_cons.mpr ⟨typed, each⟩⟩

section Transformation

variable {dataset : Descriptor} {members : List (String × Json)} {group keys : List String}
  {t : Transformation} (is : IsTransformation dataset members group keys)
  (reads : ReadsTransformation dataset members t)

include is reads

theorem IsTransformation.group_names : List.Forall₂ (RefersTo dataset) group t.group := by
  obtain ⟨references, hr, each⟩ := reads.group
  have same := hr.symm.trans is.group_eq
  rw [Option.some.injEq, Json.array.injEq, List.map_inj_right fun _ _ => Json.string.inj] at same
  rwa [same] at each

theorem IsTransformation.rules_wellTyped :
    t.rules.map ApplyRule.key = keys ∧ ∀ rule ∈ t.rules, rule.WellTyped dataset.kind := by
  obtain ⟨items, hi, ruled⟩ := is.rules
  obtain ⟨others, ho, read⟩ := reads.rules
  obtain rfl : items = others := Json.array.inj (Option.some.inj (hi.symm.trans ho))
  exact forall₂_rules ruled read

theorem IsTransformation.wellTyped : t.WellTyped dataset.kind := by
  have names := is.group_names reads
  obtain ⟨hk, typed⟩ := is.rules_wellTyped reads
  refine ⟨ne_nil_of_forall₂ names is.group_nonempty, fun name mem => ?_, typed,
    hk ▸ is.keys_nodup, fun rule mem => is.keys_proper _ (hk ▸ List.mem_map_of_mem mem)⟩
  obtain ⟨_, _, field, found, hn⟩ := exists_of_mem_right names mem
  exact ⟨field, found.1, hn⟩

end Transformation

theorem IsGrouping.wellTyped {dataset : Descriptor} {grouping : Option (List (String × Json))}
    {group : Option (List String)} {keys : List String} {transformation : Option Transformation}
    (is : IsGrouping dataset grouping group keys)
    (reads : Option.Rel (ReadsTransformation dataset) grouping transformation) {t : Transformation}
    (ht : t ∈ transformation) : t.WellTyped dataset.kind := by
  cases reads with
  | none => nomatch ht
  | some reads =>
    cases is with
    | some is =>
      obtain rfl := Option.mem_some.mp ht
      exact is.wellTyped reads

theorem IsColumn.inScope {dataset : Descriptor} {grouping : Option (List (String × Json))}
    {group : Option (List String)} {keys : List String} {transformation : Option Transformation}
    (is : IsGrouping dataset grouping group keys)
    (reads : Option.Rel (ReadsTransformation dataset) grouping transformation)
    {reference : String} (h : IsColumn dataset group keys reference) {column : Column}
    (resolves : Resolves dataset keys reference column) :
    column.InScope dataset.kind transformation := by
  cases resolves with
  | apply known =>
    cases is with
    | none => nomatch known
    | some is =>
      cases reads with
      | some reads =>
        obtain ⟨hk, _⟩ := is.rules_wellTyped reads
        obtain ⟨rule, mem, rfl⟩ := List.mem_map.mp (hk ▸ known)
        exact .apply mem
  | @field field unknown found =>
    obtain ⟨_, grouped⟩ := h.resolve_left unknown
    cases is with
    | none =>
      cases reads
      exact .field ⟨field, found.1, rfl⟩
    | some is =>
      cases reads with
      | some reads =>
        exact .group
          ((mem_group_iff (is.group_names reads) ⟨field, found, rfl⟩).mp (grouped _ rfl))

/-- An order key is a column even if it is not shown. -/
theorem IsOrderKey.isColumn {dataset : Descriptor} {group : Option (List String)}
    {columns keys : List String} (hc : ∀ reference ∈ columns, IsColumn dataset group keys reference)
    {reference : String} (h : IsOrderKey columns keys reference) :
    IsColumn dataset group keys reference := by
  rcases h with shown | known
  · exact hc reference shown
  · exact .inl known

/-- The keys of an order are what the document names them by, a column or an apply key each. -/
theorem IsOrder.isOrderKey {dataset : Descriptor} {columns keys : List String}
    {document : Option Json} (h : IsOrder columns keys document) {order : Order}
    (reads : ReadsOrder dataset keys document (some order)) :
    order.keys ≠ [] ∧ ∀ key ∈ order.keys, ∃ reference,
      IsOrderKey columns keys reference ∧ Resolves dataset keys reference key := by
  cases reads with
  | key resolves =>
    exact ⟨List.cons_ne_nil _ _, fun key mem =>
      ⟨_, h, List.mem_singleton.mp mem ▸ resolves⟩⟩
  | @object members direction references columns dir listed each =>
    obtain ⟨_, _, others, ho, nonempty, shown⟩ := h
    have same := listed.symm.trans ho
    rw [Option.some.injEq, Json.array.injEq, List.map_inj_right fun _ _ => Json.string.inj] at same
    subst same
    refine ⟨ne_nil_of_forall₂ each nonempty, fun key mem => ?_⟩
    obtain ⟨reference, hr, resolves⟩ := exists_of_mem_right each mem
    exact ⟨reference, shown reference hr, resolves⟩

theorem IsOrder.isColumn {dataset : Descriptor} {group : Option (List String)}
    {columns keys : List String} (hc : ∀ reference ∈ columns, IsColumn dataset group keys reference)
    {document : Option Json} (h : IsOrder columns keys document) {order : Order}
    (reads : ReadsOrder dataset keys document (some order)) :
    order.keys ≠ [] ∧ ∀ key ∈ order.keys, ∃ reference,
      IsColumn dataset group keys reference ∧ Resolves dataset keys reference key := by
  obtain ⟨nonempty, each⟩ := h.isOrderKey reads
  refine ⟨nonempty, fun key mem => ?_⟩
  obtain ⟨reference, is, resolves⟩ := each key mem
  exact ⟨reference, IsOrderKey.isColumn hc is, resolves⟩

/-! ## Plans -/

theorem IsTarget.ne_nil {datasets : List Descriptor} {columns : List String}
    {dataset : Descriptor} (h : IsTarget datasets columns dataset) : columns ≠ [] := by
  obtain ⟨⟨first, head, _⟩, _⟩ := h
  rintro rfl
  nomatch head

/-- What the parts of a query stand for is well typed. -/
theorem Parts.Reads.wellTyped {parts : Parts} {plan : Plan} (reads : parts.Reads plan)
    {datasets : List Descriptor} {document : Json} (outlines : parts.Outlines datasets document) :
    plan.WellTyped := by
  have columns := reads.columns
  have transformation := reads.transformation
  have inScope := @IsColumn.inScope _ _ _ _ _ outlines.grouping transformation
  have kind : plan.dataset.kind = parts.dataset.kind := congrArg Descriptor.kind reads.dataset
  refine ⟨?_, fun t ht => ?_, ne_nil_of_forall₂ columns outlines.target.ne_nil,
    fun column mem => ?_, fun order ho => ?_⟩
  · rw [kind]
    exact reads.filter.wellTyped
  · rw [kind]
    exact outlines.grouping.wellTyped transformation ht
  · obtain ⟨reference, hr, resolves⟩ := exists_of_mem_right columns mem
    rw [kind]
    exact inScope (outlines.options.columns_ok reference hr) resolves
  · obtain ⟨nonempty, each⟩ := outlines.options.order.isColumn outlines.options.columns_ok
      (Option.mem_def.mp ho ▸ reads.order)
    refine ⟨nonempty, fun key mem => ?_⟩
    obtain ⟨reference, is, resolves⟩ := each key mem
    rw [kind]
    exact inScope is resolves

/-- The plan of a document is well typed. -/
theorem wellTyped {datasets : List Descriptor} {document : Json} {plan : Plan}
    (h : Plan.ofDocument datasets document = .ok plan) : plan.WellTyped := by
  obtain ⟨parts, outlines, reads⟩ := ofDocument_eq_ok_plan.mp h
  exact reads.wellTyped outlines

end Query

end CampusQuery
