import CampusQuery.Proofs.Except
import CampusQuery.Query.Conditions

/-!
# Short forms of a query

An order may be given as one key, and an order or a transformation that is null might as well not be
there. What is looked at in a query are its keys and what names stand for, so documents in which
these are alike have the same plan or the same defect: for the members of `OPTIONS` this is
`SameOptions`, and for those of the query `SameSections`.

Only the checks of an order tell its two forms apart: a lone key is resolved once more. But it is one
of the columns or an apply key, and all of those have been resolved before (`SameOrder.checkOrder_eq`).

`ofDocument_spelledOut` is that a query and its long form are answered alike, well formed or not.
-/

namespace CampusQuery

namespace Json

/-- The members with what a name stands for replaced. -/
def mapMember (name : String) (f : Json → Json) (members : List (String × Json)) :
    List (String × Json) :=
  members.map fun member => if member.1 = name then (name, f member.2) else member

/-- An object with what a name stands for replaced. -/
def mapField (name : String) (f : Json → Json) : Json → Json
  | .object members => .object (mapMember name f members)
  | document => document

/-- The members but those of the name. -/
def dropMember (name : String) (members : List (String × Json)) : List (String × Json) :=
  members.filter (·.1 ≠ name)

/-- An object without the name if it stands for null. -/
def dropNull (name : String) : Json → Json
  | .object members =>
    match fieldOf? name members with
    | some .null => .object (dropMember name members)
    | _ => .object members
  | document => document

theorem fieldOf?_mapMember (name other : String) (f : Json → Json)
    (members : List (String × Json)) :
    fieldOf? other (mapMember name f members) =
      if other = name then (fieldOf? name members).map f else fieldOf? other members := by
  induction members with
  | nil => simp [mapMember, fieldOf?]
  | cons member members ih =>
    obtain ⟨key, value⟩ := member
    by_cases here : key = name
    · by_cases asked : other = name <;> simp_all [mapMember, fieldOf?, eq_comm]
    · by_cases asked : key = other <;> simp_all [mapMember, fieldOf?]

theorem fieldOf?_dropMember (name other : String) (members : List (String × Json)) :
    fieldOf? other (dropMember name members) =
      if other = name then none else fieldOf? other members := by
  induction members with
  | nil => simp [dropMember, fieldOf?]
  | cons member members ih =>
    obtain ⟨key, value⟩ := member
    by_cases here : key = name
    · by_cases asked : other = name <;> simp_all [dropMember, fieldOf?, eq_comm]
    · by_cases asked : key = other <;> simp_all [dropMember, fieldOf?]

end Json

namespace Query

open Json (mapMember mapField dropMember dropNull)

section Keys

variable {part : Part} {allowed : List String} {name : String}

/-- Which members are refused is a matter of their names. -/
theorem checkKeys_eq (members : List (String × Json)) :
    checkKeys part allowed members =
      match (members.map Prod.fst).find? (· ∉ allowed) with
      | some key => .error (.unknownKey key part)
      | none => .ok () := by
  rw [checkKeys, List.find?_map, Function.comp_def]
  cases members.find? fun member => member.1 ∉ allowed <;> rfl

theorem checkKeys_mapMember (f : Json → Json) (members : List (String × Json)) :
    checkKeys part allowed (mapMember name f members) = checkKeys part allowed members := by
  have names : (mapMember name f members).map Prod.fst = members.map Prod.fst := by
    rw [mapMember, List.map_map]
    refine List.map_congr_left fun member _ => ?_
    by_cases here : member.1 = name <;> simp [here]
  rw [checkKeys_eq, checkKeys_eq, names]

theorem checkKeys_dropMember (known : name ∈ allowed) (members : List (String × Json)) :
    checkKeys part allowed (dropMember name members) = checkKeys part allowed members := by
  have refused : (dropMember name members).find? (fun member => member.1 ∉ allowed) =
      members.find? fun member => member.1 ∉ allowed := by
    rw [dropMember, List.find?_filter]
    refine congrArg (List.find? · members) (funext fun member => ?_)
    by_cases here : member.1 = name <;> simp [here, known]
  rw [checkKeys, checkKeys, refused]

end Keys

/-- The members of an order by one key. -/
def longOrderMembers (key : String) : List (String × Json) :=
  [("dir", .string "UP"), ("keys", .array [.string key])]

/-- An order in its long form if it is one key. -/
def spellOrder : Json → Json
  | .string key => .object (longOrderMembers key)
  | order => order

/-- The second order is the first one, or spells it out, or is missing where the first one is
null. -/
inductive SameOrder : Option Json → Option Json → Prop
  | refl (order : Option Json) : SameOrder order order
  | key (key : String) : SameOrder (some (.string key)) (some (.object (longOrderMembers key)))
  | null : SameOrder (some .null) none

theorem sameOrder_spellOrder (order : Option Json) : SameOrder order (order.map spellOrder) :=
  match order with
  | some (.string key) => .key key
  | none | some .null | some (.bool _) | some (.number _) | some (.array _) | some (.object _) =>
    .refl _

/-- What a reference names does not depend on the part that it stands in. -/
theorem resolveField_of_part {dataset : Descriptor} {part other : Part} {reference : String}
    {field : Field} (h : resolveField dataset part reference = .ok field) :
    resolveField dataset other reference = .ok field := by
  unfold resolveField at *
  split at h
  · cases h
  · split at h
    · cases h
    · rename_i own
      rw [if_neg own]
      split at h
      · cases h
      · exact h

theorem resolveColumn_of_part {dataset : Descriptor} {keys : ApplyKeys} {part other : Part}
    {reference : String} {column : Column}
    (h : resolveColumn dataset keys part reference = .ok column) :
    resolveColumn dataset keys other reference = .ok column := by
  unfold resolveColumn at *
  split at h
  · rename_i known
    rwa [if_pos known]
  · rename_i unknown
    obtain ⟨field, found, rfl⟩ := map_eq_ok.mp h
    rw [if_neg unknown, resolveField_of_part found]
    rfl

namespace SameOrder

variable {order other : Option Json} (same : SameOrder order other) (dataset : Descriptor)
  (keys : ApplyKeys)

include same

theorem readOrder_eq : readOrder dataset keys other = readOrder dataset keys order := by
  cases same with
  | refl => rfl
  | null => rfl
  | key key =>
    have direction : readDirection (longOrderMembers key) = .ok .up := rfl
    have columns : readOrderKeys dataset keys (longOrderMembers key) =
        [Json.string key].mapM (readColumn dataset keys .order) := rfl
    rw [readOrder, readOrder, direction, columns, ok_bind, List.mapM_cons, List.mapM_nil]
    cases readColumn dataset keys .order (.string key) <;> rfl

theorem checkOrder_eq {shown : List String}
    (resolved : ∀ reference ∈ shown, ∃ column,
      resolveColumn dataset keys .columns reference = .ok column) :
    checkOrder dataset keys shown other = checkOrder dataset keys shown order := by
  cases same with
  | refl => rfl
  | null => rfl
  | key key =>
    have among : checkKeys .order ["dir", "keys"] (longOrderMembers key) = .ok () := rfl
    have direction : readDirection (longOrderMembers key) = .ok .up := rfl
    have items : readOrderItems (longOrderMembers key) = .ok [.string key] := rfl
    have item : checkOrderItem keys shown (.string key) = checkOrderKey keys shown key := rfl
    rw [checkOrder, checkOrder, among, direction, items, ok_bind, ok_bind, ok_bind,
      List.mapM_cons, List.mapM_nil, item, checkOrderKey]
    split
    · rename_i inScope
      obtain ⟨column, resolves⟩ : ∃ column, resolveColumn dataset keys .order key = .ok column := by
        rcases inScope with mem | known
        · obtain ⟨column, resolves⟩ := resolved key mem
          exact ⟨column, resolveColumn_of_part resolves⟩
        · exact ⟨.apply key, if_pos known⟩
      rw [resolves]
      rfl
    · rfl

end SameOrder

/-! ## Options -/

/-- Members of `OPTIONS` that are alike in their keys, in the columns and in the order. -/
structure SameOptions (options others : List (String × Json)) : Prop where
  keys : checkKeys .options ["COLUMNS", "ORDER"] others =
    checkKeys .options ["COLUMNS", "ORDER"] options
  columns : Json.fieldOf? "COLUMNS" others = Json.fieldOf? "COLUMNS" options
  order : SameOrder (Json.fieldOf? "ORDER" options) (Json.fieldOf? "ORDER" others)

namespace SameOptions

theorem refl (options : List (String × Json)) : SameOptions options options := ⟨rfl, rfl, .refl _⟩

variable {options others : List (String × Json)} (same : SameOptions options others)

include same

theorem readFirstColumn_eq : readFirstColumn others = readFirstColumn options := by
  rw [readFirstColumn, readFirstColumn, same.columns]

theorem columnNames_eq : columnNames others = columnNames options := by
  rw [columnNames, columnNames, same.columns]

theorem checkOptions_eq (dataset : Descriptor) (keys : ApplyKeys)
    (grouping : Option (List (String × Json))) :
    checkOptions dataset keys grouping others = checkOptions dataset keys grouping options := by
  rw [checkOptions, checkOptions, same.keys, same.columnNames_eq]
  refine bind_congr_ok fun _ _ => bind_congr_ok fun shown _ => bind_congr_ok fun group _ => ?_
  refine bind_congr_ok fun results checked => ?_
  refine same.order.checkOrder_eq dataset keys fun reference mem => ?_
  obtain ⟨_, passed⟩ := exists_forall₂.mp ⟨results, mapM_eq_ok.mp checked⟩ reference mem
  obtain ⟨column, resolves, _⟩ := bind_eq_ok.mp passed
  exact ⟨column, resolves⟩

theorem readOptions_eq (dataset : Descriptor) (keys : ApplyKeys) :
    readOptions dataset keys others = readOptions dataset keys options := by
  rw [readOptions, readOptions, readColumns, readColumns, same.columns, same.order.readOrder_eq]

end SameOptions

theorem sameOptions_spellOrder (options : List (String × Json)) :
    SameOptions options (mapMember "ORDER" spellOrder options) where
  keys := checkKeys_mapMember spellOrder options
  columns := Json.fieldOf?_mapMember "ORDER" "COLUMNS" spellOrder options
  order := by
    rw [Json.fieldOf?_mapMember, if_pos rfl]
    exact sameOrder_spellOrder _

theorem sameOptions_dropOrder {options : List (String × Json)}
    (null : Json.fieldOf? "ORDER" options = some .null) :
    SameOptions options (dropMember "ORDER" options) where
  keys := checkKeys_dropMember (by decide) options
  columns := Json.fieldOf?_dropMember "ORDER" "COLUMNS" options
  order := by
    rw [Json.fieldOf?_dropMember, if_pos rfl, null]
    exact .null

/-! ## Sections -/

/-- Two values of `OPTIONS` that are the same, or objects that are alike. -/
inductive SameSection : Json → Json → Prop
  | refl (document : Json) : SameSection document document
  | object {options others : List (String × Json)} (same : SameOptions options others) :
    SameSection (.object options) (.object others)

theorem sameSection_spellOrder (document : Json) :
    SameSection document (mapField "ORDER" spellOrder document) :=
  match document with
  | .object options => .object (sameOptions_spellOrder options)
  | .null | .bool _ | .number _ | .string _ | .array _ => .refl _

theorem sameSection_dropOrder (document : Json) :
    SameSection document (dropNull "ORDER" document) := by
  unfold dropNull
  split
  · split
    · rename_i null
      exact .object (sameOptions_dropOrder null)
    · exact .refl _
  · exact .refl _

/-- Members of a query that are alike in their keys and in its sections. -/
structure SameSections (members others : List (String × Json)) : Prop where
  keys : checkKeys .query ["WHERE", "OPTIONS", "TRANSFORMATIONS"] others =
    checkKeys .query ["WHERE", "OPTIONS", "TRANSFORMATIONS"] members
  conditions : Json.fieldOf? "WHERE" others = Json.fieldOf? "WHERE" members
  options : Option.Rel SameSection (Json.fieldOf? "OPTIONS" members)
    (Json.fieldOf? "OPTIONS" others)
  grouping : readGrouping others = readGrouping members

namespace SameSections

variable {members others : List (String × Json)} (same : SameSections members others)

include same

/-- The options are missing for the same reason, or there are some in both places. -/
theorem readOptions_cases :
    (∃ defect, readSection .options members = .error defect ∧
      readSection .options others = .error defect) ∨
    ∃ options options', readSection .options members = .ok options ∧
      readSection .options others = .ok options' ∧ SameOptions options options' := by
  have related := same.options
  rw [readSection, readSection, Part.name]
  generalize Json.fieldOf? "OPTIONS" members = document at related
  generalize Json.fieldOf? "OPTIONS" others = other at related
  cases related with
  | none => exact .inl ⟨.missing .options, rfl, rfl⟩
  | @some document _ alike =>
    cases alike with
    | object same => exact .inr ⟨_, _, rfl, rfl, same⟩
    | refl =>
      cases document with
      | object options => exact .inr ⟨options, options, rfl, rfl, .refl options⟩
      | _ => exact .inl ⟨.notObject .options, rfl, rfl⟩

/-- Alike queries have one plan, or one defect. -/
theorem ofDocument_eq (datasets : List Descriptor) :
    Plan.ofDocument datasets (.object others) = Plan.ofDocument datasets (.object members) := by
  have conditions : readSection .conditions others = readSection .conditions members := by
    rw [readSection, readSection, Part.name, same.conditions]
  simp only [Plan.ofDocument, Outline.ofDocument, requireObject, ok_bind, bind_assoc, pure_bind,
    Outline.toPlan, same.keys, conditions, same.grouping]
  refine bind_congr_ok fun _ _ => bind_congr_ok fun _ _ => ?_
  rcases same.readOptions_cases with ⟨defect, own, others⟩ | ⟨options, options', own, others, same⟩
  · rw [own, others]
  · simp only [own, others, ok_bind, same.readFirstColumn_eq, same.checkOptions_eq,
      same.readOptions_eq]

end SameSections

/-- A change of `OPTIONS` that leaves them alike. -/
theorem sameSections_mapOptions {f : Json → Json} (alike : ∀ document, SameSection document (f document))
    (members : List (String × Json)) : SameSections members (mapMember "OPTIONS" f members) where
  keys := checkKeys_mapMember f members
  conditions := Json.fieldOf?_mapMember "OPTIONS" "WHERE" f members
  options := by
    rw [Json.fieldOf?_mapMember, if_pos rfl]
    cases Json.fieldOf? "OPTIONS" members with
    | none => exact .none
    | some options => exact .some (alike options)
  grouping := by
    rw [readGrouping, readGrouping, Json.fieldOf?_mapMember, if_neg (by decide)]

theorem sameSections_dropTransformations {members : List (String × Json)}
    (null : Json.fieldOf? "TRANSFORMATIONS" members = some .null) :
    SameSections members (dropMember "TRANSFORMATIONS" members) where
  keys := checkKeys_dropMember (by decide) members
  conditions := Json.fieldOf?_dropMember "TRANSFORMATIONS" "WHERE" members
  options := by
    rw [Json.fieldOf?_dropMember, if_neg (by decide)]
    cases Json.fieldOf? "OPTIONS" members with
    | none => exact .none
    | some options => exact .some (.refl options)
  grouping := by
    rw [readGrouping, readGrouping, Json.fieldOf?_dropMember, if_pos rfl, null]

theorem ofDocument_mapOptions {f : Json → Json} (alike : ∀ document, SameSection document (f document))
    (datasets : List Descriptor) (document : Json) :
    Plan.ofDocument datasets (mapField "OPTIONS" f document) =
      Plan.ofDocument datasets document :=
  match document with
  | .object members => (sameSections_mapOptions alike members).ofDocument_eq datasets
  | .null | .bool _ | .number _ | .string _ | .array _ => rfl

/-- The plan or the defect of a document stays the same if an order by one key is spelled out, if
null is left out as the order, and if null is left out as the transformation. -/
theorem ofDocument_spelledOut (datasets : List Descriptor) (document : Json) :
    Plan.ofDocument datasets (mapField "OPTIONS" (mapField "ORDER" spellOrder) document) =
        Plan.ofDocument datasets document ∧
      Plan.ofDocument datasets (mapField "OPTIONS" (dropNull "ORDER") document) =
        Plan.ofDocument datasets document ∧
      Plan.ofDocument datasets (dropNull "TRANSFORMATIONS" document) =
        Plan.ofDocument datasets document := by
  refine ⟨ofDocument_mapOptions sameSection_spellOrder datasets document,
    ofDocument_mapOptions sameSection_dropOrder datasets document, ?_⟩
  unfold dropNull
  split
  · split
    · rename_i null
      exact (sameSections_dropTransformations null).ofDocument_eq datasets
    · rfl
  · rfl

example :
    mapField "OPTIONS" (mapField "ORDER" spellOrder)
        (.object [("OPTIONS", .object [("ORDER", .string "rooms_seats")])]) =
      .object [("OPTIONS", .object [("ORDER",
        .object [("dir", .string "UP"), ("keys", .array [.string "rooms_seats"])])])] :=
  rfl

end Query

end CampusQuery
