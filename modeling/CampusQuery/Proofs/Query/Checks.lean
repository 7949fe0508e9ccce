import CampusQuery.Proofs.Query.Grammar
import CampusQuery.Query.Conditions

/-!
# What passes the checks

Each check of a part of a query accepts exactly the documents of the grammar:

* `foldlM_checkRule`, `checkTransformation_eq_ok`, `readKeys_eq_ok`: the rules declare their keys
  one after another, and the transformation's keys are those of its rules;
* `readGroup_eq_ok`: the group fields are the references of `GROUP` without their qualifier, so
  that `checkColumn_eq_ok` may compare references instead of names;
* `checkOptions_eq_ok`: the columns and then the order.
-/

namespace CampusQuery

theorem Aggregate.ofKeyword?_eq_some {word : String} {aggregate : Aggregate} :
    ofKeyword? word = some aggregate ↔ word = aggregate.keyword := by
  refine ⟨fun h => ?_, fun h => by rw [h]; cases aggregate <;> rfl⟩
  unfold ofKeyword? at h
  split at h <;> cases h <;> rfl

theorem Aggregate.accepts_iff {aggregate : Aggregate} {type : FieldType} :
    aggregate.accepts type = true ↔ aggregate = .count ∨ type = .numeric := by
  simp [accepts]

namespace ApplyKeys

theorem eq_of_toList {a b : ApplyKeys} (h : a.toList = b.toList) : a = b := by
  cases a
  cases b
  simpa using h

/-- A key that comes next in keys that are known to be proper can be declared. -/
theorem declare_of_toList {keys all : ApplyKeys} {key : String} {rest : List String}
    (h : all.toList = keys.toList ++ key :: rest) :
    ∃ extended, keys.declare key = .ok extended ∧ extended.toList = keys.toList ++ [key] := by
  have mem : key ∈ all.toList := by rw [h]; simp
  obtain ⟨nonempty, unqualified⟩ := all.proper key mem
  have distinct := all.nodup
  rw [h, List.nodup_append] at distinct
  have new : key ∉ keys.toList := fun known => distinct.2.2 key known key (by simp) rfl
  cases declared : keys.declare key with
  | ok extended => exact ⟨extended, rfl, (declare_eq_ok.mp declared).2.2.2⟩
  | error =>
    rw [declare, dif_neg nonempty, dif_neg unqualified, dif_neg new] at declared
    cases declared

end ApplyKeys

namespace Query

theorem readAggregate_eq_ok {body : Json} {aggregate : Aggregate} {reference : String} :
    readAggregate body = .ok (aggregate, reference) ↔
      body = .object [(aggregate.keyword, .string reference)] := by
  simp only [readAggregate, bind_eq_ok, singleMember_eq_ok]
  refine ⟨fun ⟨⟨word, value⟩, hb, h⟩ => ?_, fun hb => ⟨_, hb, ?_⟩⟩
  · dsimp only at h
    split at h
    · cases h
    · rename_i found
      obtain rfl := Aggregate.ofKeyword?_eq_some.mp found
      cases value with
      | string s =>
        obtain ⟨rfl, rfl⟩ := Prod.mk.inj (pure_eq_ok.mp h)
        exact hb
      | _ => cases h
  · simp only [Aggregate.ofKeyword?_eq_some.mpr rfl]
    rfl

/-- Items that are strings, each of which is related to a result. -/
theorem forall₂_string {β : Type} {R : String → β → Prop} {items : List Json} {results : List β} :
    List.Forall₂ (fun item result => ∃ s, item = .string s ∧ R s result) items results ↔
      ∃ strings : List String, items = strings.map .string ∧ List.Forall₂ R strings results := by
  refine ⟨fun h => ?_, fun ⟨strings, hi, h⟩ => ?_⟩
  · induction h with
    | nil => exact ⟨[], rfl, .nil⟩
    | cons h _ ih =>
      obtain ⟨s, rfl, hs⟩ := h
      obtain ⟨strings, rfl, each⟩ := ih
      exact ⟨s :: strings, rfl, .cons hs each⟩
  · rw [hi, List.forall₂_map_left_iff]
    exact h.imp fun s _ hs => ⟨s, rfl, hs⟩

theorem mapM_requireString {part : Part} {items : List Json} {strings : List String} :
    items.mapM (requireString part) = .ok strings ↔ items = strings.map .string := by
  rw [mapM_eq_ok]
  simp only [requireString_eq_ok]
  rw [← List.forall₂_map_right_iff (R := (· = ·)), List.forall₂_eq_eq_eq]

theorem readGroupItems_eq_ok {members : List (String × Json)} {items : List Json} :
    readGroupItems members = .ok items ↔
      Json.fieldOf? "GROUP" members = some (.array items) ∧ items ≠ [] := by
  unfold readGroupItems
  split
  · rename_i found
    simp [found, eq_comm]
  · rename_i items' nonempty found
    rw [found]
    simp only [Except.ok.injEq, Option.some.injEq, Json.array.injEq, iff_self_and]
    rintro rfl rfl
    exact nonempty rfl
  · rename_i other
    simp_all
  · rename_i found
    simp [found]

theorem readRuleItems_eq_ok {members : List (String × Json)} {items : List Json} :
    readRuleItems members = .ok items ↔ Json.fieldOf? "APPLY" members = some (.array items) := by
  unfold readRuleItems
  split
  · rename_i found
    simp [found]
  · rename_i other _
    simp_all
  · rename_i found
    simp [found]

section Dataset

variable {dataset : Descriptor} (hid : '_' ∉ dataset.id.toList)

include hid

/-! ## Transformations -/

theorem checkRule_eq_ok {keys extended : ApplyKeys} {item : Json} :
    checkRule dataset keys item = .ok extended ↔
      ∃ key, IsRule dataset item key ∧ keys.declare key = .ok extended := by
  simp only [checkRule, bind_eq_ok, singleMember_eq_ok, Prod.exists, readAggregate_eq_ok,
    resolveField_eq_ok hid, IsRule, ← Aggregate.accepts_iff]
  refine ⟨fun ⟨key, body, hi, keys', declared, aggregate, reference, hb, field, found, h⟩ => ?_,
    fun ⟨key, ⟨aggregate, reference, field, hi, found, accepted⟩, declared⟩ =>
      ⟨key, _, hi, extended, declared, aggregate, reference, rfl, field, found, ?_⟩⟩
  · split at h
    · rename_i accepted
      obtain rfl := pure_eq_ok.mp h
      exact ⟨key, ⟨aggregate, reference, field, by rw [hi, hb], found, accepted⟩, declared⟩
    · cases h
  · rw [if_pos accepted]
    rfl

/-- Rules that come after others with the given keys add theirs, in their order. -/
theorem foldlM_checkRule {items : List Json} {keys all : ApplyKeys} :
    items.foldlM (checkRule dataset) keys = .ok all ↔
      ∃ new, List.Forall₂ (IsRule dataset) items new ∧ all.toList = keys.toList ++ new := by
  induction items generalizing keys with
  | nil =>
    simp only [List.foldlM_nil, pure_eq_ok, List.forall₂_nil_left_iff, exists_eq_left,
      List.append_nil]
    exact ⟨fun h => by rw [h], fun h => (ApplyKeys.eq_of_toList h).symm⟩
  | cons item items ih =>
    simp only [List.foldlM_cons, bind_eq_ok, checkRule_eq_ok hid, ih]
    refine ⟨fun ⟨next, ⟨key, hr, declared⟩, new, each, hall⟩ => ⟨key :: new, .cons hr each, ?_⟩,
      fun ⟨new, each, hall⟩ => ?_⟩
    · rw [hall, (ApplyKeys.declare_eq_ok.mp declared).2.2.2]
      simp
    · obtain ⟨key, rest, hr, others, rfl⟩ := List.forall₂_cons_left_iff.mp each
      obtain ⟨next, declared, hn⟩ := ApplyKeys.declare_of_toList hall
      exact ⟨next, ⟨key, hr, declared⟩, rest, others, by rw [hall, hn]; simp⟩

theorem mapM_readGroupField {items : List Json} {names : List String} :
    items.mapM (readGroupField dataset) = .ok names ↔
      ∃ references : List String, items = references.map .string ∧
        List.Forall₂ (RefersTo dataset) references names := by
  rw [mapM_eq_ok, ← forall₂_string]
  simp only [readGroupField, bind_eq_ok, requireString_eq_ok, resolveField_eq_ok hid, pure_eq_ok,
    RefersTo]

omit hid in
/-- The fields that the references of `GROUP` are to. -/
theorem IsTransformation.exists_names {members : List (String × Json)} {group keys : List String}
    (h : IsTransformation dataset members group keys) :
    ∃ names, List.Forall₂ (RefersTo dataset) group names := by
  refine exists_forall₂.mpr fun reference mem => ?_
  obtain ⟨field, found⟩ := h.group_refers reference mem
  exact ⟨field.name, field, found, rfl⟩

omit hid in
theorem IsGrouping.exists_names {grouping : Option (List (String × Json))}
    {group : Option (List String)} {keys : List String}
    (h : IsGrouping dataset grouping group keys) :
    ∃ names, Option.Rel (List.Forall₂ (RefersTo dataset)) group names := by
  cases h with
  | none => exact ⟨_, .none⟩
  | some h =>
    obtain ⟨names, each⟩ := h.exists_names
    exact ⟨_, .some each⟩

theorem checkTransformation_eq_ok {members : List (String × Json)} {keys : ApplyKeys} :
    checkTransformation dataset members = .ok keys ↔
      ∃ group, IsTransformation dataset members group keys.toList := by
  simp only [checkTransformation, bind_eq_ok, checkKeys_eq_ok, readGroupItems_eq_ok,
    readRuleItems_eq_ok, foldlM_checkRule hid, mapM_readGroupField hid, pure_eq_ok]
  refine ⟨fun ⟨_, among, _, ⟨hg, nonempty⟩, ruleItems, hr, _, ⟨new, each, hk⟩, names, h, rfl⟩ => ?_,
    fun ⟨group, h⟩ => ?_⟩
  · obtain ⟨group, rfl, refers⟩ := h
    obtain rfl : _ = new := hk
    refine ⟨group, among, hg, by simpa using nonempty, fun reference mem => ?_,
      ⟨ruleItems, hr, each⟩, ApplyKeys.nodup _, ApplyKeys.proper _⟩
    obtain ⟨name, field, found, _⟩ := exists_forall₂.mp ⟨names, refers⟩ reference mem
    exact ⟨field, found⟩
  · obtain ⟨names, refers⟩ := h.exists_names
    obtain ⟨ruleItems, hr, each⟩ := h.rules
    exact ⟨(), h.keysAmong, _, ⟨h.group_eq, by simpa using h.group_nonempty⟩, ruleItems, hr, keys,
      ⟨keys.toList, each, rfl⟩, names, ⟨group, rfl, refers⟩, rfl⟩

theorem readKeys_eq_ok {grouping : Option (List (String × Json))} {keys : ApplyKeys} :
    readKeys dataset grouping = .ok keys ↔
      ∃ group, IsGrouping dataset grouping group keys.toList := by
  cases grouping with
  | none =>
    refine ⟨fun h => ?_, fun ⟨_, h⟩ => ?_⟩
    · cases h
      exact ⟨none, .none⟩
    · generalize ht : keys.toList = list at h
      cases h
      rw [readKeys, ApplyKeys.eq_of_toList (a := keys) (b := .empty) ht]
  | some members =>
    rw [readKeys, checkTransformation_eq_ok hid]
    refine ⟨fun ⟨group, h⟩ => ⟨some group, .some h⟩, fun ⟨_, h⟩ => ?_⟩
    cases h with
    | some h => exact ⟨_, h⟩

/-! ## Options -/

theorem readGroup_eq_ok {members : List (String × Json)} {names : List String} :
    readGroup dataset members = .ok names ↔
      ∃ references : List String,
        Json.fieldOf? "GROUP" members = some (.array (references.map .string)) ∧
          List.Forall₂ (RefersTo dataset) references names := by
  unfold readGroup
  split
  · rename_i items found
    rw [mapM_readGroupField hid]
    simp [found]
  · rename_i other
    refine ⟨nofun, fun ⟨references, found, _⟩ => ?_⟩
    exact absurd found (other _)

/-- The names of the group fields are those that the references of `GROUP` are to. -/
theorem mapM_readGroup {grouping : Option (List (String × Json))}
    {group names : Option (List String)} {keys : List String}
    (h : IsGrouping dataset grouping group keys) :
    grouping.mapM (readGroup dataset) = .ok names ↔
      Option.Rel (List.Forall₂ (RefersTo dataset)) group names := by
  rw [optionMapM_eq_ok]
  cases h with
  | none => exact ⟨fun | .none => .none, fun | .none => .none⟩
  | some h =>
    refine ⟨fun | .some read => .some ?_, fun | .some each => .some ?_⟩
    · obtain ⟨references, found, each⟩ := (readGroup_eq_ok hid).mp read
      rw [h.group_eq, Option.some.injEq, Json.array.injEq,
        List.map_inj_right fun _ _ => Json.string.inj] at found
      rwa [found]
    · exact (readGroup_eq_ok hid).mpr ⟨_, h.group_eq, each⟩

omit hid in
/-- A group field is one of the references of `GROUP` by name or by reference alike. -/
theorem mem_group_iff {references names : List String} {reference name : String}
    (each : List.Forall₂ (RefersTo dataset) references names)
    (refers : RefersTo dataset reference name) : reference ∈ references ↔ name ∈ names := by
  obtain ⟨field, ⟨_, rfl⟩, rfl⟩ := refers
  induction each with
  | nil => simp
  | cons h _ ih =>
    obtain ⟨other, ⟨_, rfl⟩, rfl⟩ := h
    simp only [List.mem_cons, ih, qualified_inj]

theorem checkColumn_eq_ok {keys : ApplyKeys} {group names : Option (List String)}
    (hg : Option.Rel (List.Forall₂ (RefersTo dataset)) group names) {reference : String}
    {done : Unit} :
    checkColumn dataset keys names reference = .ok done ↔
      IsColumn dataset group keys.toList reference := by
  simp only [checkColumn, bind_eq_ok, resolveColumn_eq_ok hid, IsColumn]
  refine ⟨fun ⟨column, resolves, h⟩ => ?_, fun h => ?_⟩
  · cases resolves with
    | apply known => exact .inl known
    | @field field unknown found =>
      refine .inr ⟨⟨field, found⟩, ?_⟩
      rintro references rfl
      cases hg with
      | some each =>
        dsimp only at h
        split at h
        · rename_i mem
          exact (mem_group_iff each ⟨field, found, rfl⟩).mpr mem
        · cases h
  · by_cases known : reference ∈ keys.toList
    · refine ⟨_, .apply known, ?_⟩
      cases hg <;> rfl
    · obtain ⟨⟨field, found⟩, grouped⟩ := h.resolve_left known
      refine ⟨_, .field known found, ?_⟩
      cases hg with
      | none => rfl
      | some each =>
        exact if_pos ((mem_group_iff each ⟨field, found, rfl⟩).mp (grouped _ rfl))

end Dataset

theorem checkOrderKey_eq_ok {keys : ApplyKeys} {columns : List String} {reference : String}
    {done : Unit} :
    checkOrderKey keys columns reference = .ok done ↔
      IsOrderKey columns keys.toList reference := by
  rw [checkOrderKey]
  split
  · rename_i h
    exact ⟨fun _ => h, fun _ => rfl⟩
  · rename_i h
    exact ⟨nofun, fun h' => absurd h' h⟩

theorem readDirection_eq_ok {members : List (String × Json)} {direction : Direction} :
    readDirection members = .ok direction ↔
      Json.fieldOf? "dir" members = some (.string direction.word) := by
  unfold readDirection
  split
  · rename_i found
    rw [found]
    cases direction <;> simp [Direction.word]
  · rename_i found
    rw [found]
    cases direction <;> simp [Direction.word]
  · rename_i up down
    refine ⟨nofun, fun found => ?_⟩
    cases direction with
    | up => exact absurd found up
    | down => exact absurd found down

theorem readOrderItems_eq_ok {members : List (String × Json)} {items : List Json} :
    readOrderItems members = .ok items ↔
      Json.fieldOf? "keys" members = some (.array items) ∧ items ≠ [] := by
  unfold readOrderItems
  split
  · rename_i found
    simp [found, eq_comm]
  · rename_i items' nonempty found
    rw [found]
    simp only [Except.ok.injEq, Option.some.injEq, Json.array.injEq, iff_self_and]
    rintro rfl rfl
    exact nonempty rfl
  · rename_i other _
    simp_all

theorem IsColumn.resolves {dataset : Descriptor} {group : Option (List String)}
    {keys : List String} {reference : String} (h : IsColumn dataset group keys reference) :
    ∃ column, Resolves dataset keys reference column := by
  by_cases known : reference ∈ keys
  · exact ⟨_, .apply known⟩
  · obtain ⟨⟨field, found⟩, _⟩ := h.resolve_left known
    exact ⟨_, .field known found⟩

theorem IsOrderKey.resolves {dataset : Descriptor} {group : Option (List String)}
    {columns keys : List String} (hc : ∀ reference ∈ columns, IsColumn dataset group keys reference)
    {reference : String} (h : IsOrderKey columns keys reference) :
    ∃ column, Resolves dataset keys reference column := by
  rcases h with shown | known
  · exact (hc reference shown).resolves
  · exact ⟨_, .apply known⟩

theorem mapM_checkOrderItem {keys : ApplyKeys} {columns : List String} {items : List Json} :
    (∃ results, items.mapM (checkOrderItem keys columns) = .ok results) ↔
      ∃ references : List String, items = references.map .string ∧
        ∀ reference ∈ references, IsOrderKey columns keys.toList reference := by
  simp only [mapM_eq_ok, checkOrderItem, bind_eq_ok, requireString_eq_ok, checkOrderKey_eq_ok,
    forall₂_string]
  rw [exists_comm]
  simp [exists_forall₂]

section Dataset

variable {dataset : Descriptor} (hid : '_' ∉ dataset.id.toList)

include hid

section Order

variable {keys : ApplyKeys} {group : Option (List String)} {columns : List String}
  (hc : ∀ reference ∈ columns, IsColumn dataset group keys.toList reference)

include hc

theorem checkOrder_string {reference : String} {done : Unit} :
    checkOrder dataset keys columns (some (.string reference)) = .ok done ↔
      IsOrderKey columns keys.toList reference := by
  simp only [checkOrder, bind_eq_ok, checkOrderKey_eq_ok, resolveColumn_eq_ok hid, pure_eq_ok]
  constructor
  · intro h
    obtain ⟨_, shown, _⟩ := h
    exact shown
  · intro shown
    obtain ⟨column, resolves⟩ := shown.resolves hc
    exact ⟨(), shown, column, resolves, trivial⟩

omit hid hc in
theorem checkOrder_object {members : List (String × Json)} {done : Unit} :
    checkOrder dataset keys columns (some (.object members)) = .ok done ↔
      IsOrder columns keys.toList (some (.object members)) := by
  simp only [checkOrder, bind_eq_ok, checkKeys_eq_ok, readDirection_eq_ok, readOrderItems_eq_ok,
    pure_eq_ok, IsOrder]
  constructor
  · intro h
    obtain ⟨_, among, direction, hd, items, ⟨hk, nonempty⟩, results, read, _⟩ := h
    obtain ⟨references, rfl, each⟩ := mapM_checkOrderItem.mp ⟨results, read⟩
    exact ⟨among, ⟨direction, hd⟩, references, hk, by simpa using nonempty, each⟩
  · intro h
    obtain ⟨among, ⟨direction, hd⟩, references, hk, nonempty, each⟩ := h
    obtain ⟨results, read⟩ := mapM_checkOrderItem.mpr ⟨references, rfl, each⟩
    exact ⟨(), among, direction, hd, _, ⟨hk, by simpa using nonempty⟩, results, read, trivial⟩

/-- The order of columns that have passed their own check. -/
theorem checkOrder_eq_ok {order : Option Json} {done : Unit} :
    checkOrder dataset keys columns order = .ok done ↔ IsOrder columns keys.toList order := by
  match order with
  | none | some .null => exact ⟨fun _ => trivial, fun _ => rfl⟩
  | some (.string _) => exact checkOrder_string hid hc
  | some (.object _) => exact checkOrder_object
  | some (.bool _) | some (.number _) | some (.array _) => exact ⟨nofun, nofun⟩

end Order

omit hid in
theorem columnNames_eq_ok {members : List (String × Json)} {columns : List String} :
    columnNames members = .ok columns ↔
      Json.fieldOf? "COLUMNS" members = some (.array (columns.map .string)) := by
  unfold columnNames
  split
  · rename_i items found
    rw [mapM_requireString, found, Option.some.injEq, Json.array.injEq]
  · rename_i other
    exact ⟨nofun, fun found => absurd found (other _)⟩

theorem checkOptions_eq_ok {keys : ApplyKeys} {grouping : Option (List (String × Json))}
    {group : Option (List String)} (hg : IsGrouping dataset grouping group keys.toList)
    {members : List (String × Json)} {done : Unit} :
    checkOptions dataset keys grouping members = .ok done ↔
      ∃ columns, IsOptions dataset group keys.toList members columns := by
  simp only [checkOptions, bind_eq_ok, checkKeys_eq_ok, columnNames_eq_ok, mapM_readGroup hid hg,
    mapM_eq_ok]
  refine ⟨fun ⟨_, among, columns, hcol, names, related, results, each, h⟩ => ?_,
    fun ⟨columns, h⟩ => ?_⟩
  · have ok : ∀ reference ∈ columns, IsColumn dataset group keys.toList reference := by
      intro reference mem
      obtain ⟨_, checked⟩ := exists_forall₂.mp ⟨results, each⟩ reference mem
      exact (checkColumn_eq_ok hid related).mp checked
    exact ⟨columns, among, hcol, ok, (checkOrder_eq_ok hid ok).mp h⟩
  · obtain ⟨names, related⟩ := hg.exists_names
    have checked : ∀ reference ∈ columns, ∃ done, checkColumn dataset keys names reference = .ok done :=
      fun reference mem => ⟨(), (checkColumn_eq_ok hid related).mpr (h.columns_ok reference mem)⟩
    obtain ⟨results, each⟩ := exists_forall₂.mpr checked
    exact ⟨(), h.keysAmong, columns, h.columns_eq, names, related, results, each,
      (checkOrder_eq_ok hid h.columns_ok).mpr h.order⟩

end Dataset

end Query

end CampusQuery
