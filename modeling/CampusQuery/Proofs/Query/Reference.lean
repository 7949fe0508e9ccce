import Mathlib
import CampusQuery.Proofs.Except
import CampusQuery.Query.Reference

/-!
# What references mean

* `qualifier_append`, `unqualified?_append`: a reference falls apart at its first underscore, and
  `reference_cases` says that a text without one is its own qualifier and names nothing.
* `resolveField_eq_ok`: a field is found exactly under the id of the dataset, an underscore and
  the field's name (`Refers`).
* `resolveColumn_eq_ok`: an apply key comes before a field (`Resolves`).
* `singleMember_eq_ok`, `checkKeys_eq_ok`, `requireObject_eq_ok`, `requireString_eq_ok`: the
  documents that pass the checks of single parts.
-/

namespace CampusQuery

theorem Kind.field?_name_of_mem {kind : Kind} {field : Field} (h : field ∈ kind.fields) :
    kind.field? field.name = some field := by
  have all : ∀ field ∈ kind.fields, kind.field? field.name = some field := by
    cases kind <;> decide
  exact all field h

theorem Kind.field?_eq_some {kind : Kind} {name : String} {field : Field} :
    kind.field? name = some field ↔ field ∈ kind.fields ∧ field.name = name := by
  constructor
  · exact fun h => ⟨mem_fields_of_field? h, name_of_field? h⟩
  · rintro ⟨h, rfl⟩
    exact field?_name_of_mem h

namespace Query

/-- The text of a reference before its first underscore, or the whole of it. -/
def Qualifies (id reference : String) : Prop :=
  '_' ∉ id.toList ∧ (reference = id ∨ ∃ name, reference = id ++ "_" ++ name)

/-- A reference to a field of the dataset. -/
def Refers (dataset : Descriptor) (reference : String) (field : Field) : Prop :=
  field ∈ dataset.kind.fields ∧ reference = dataset.id ++ "_" ++ field.name

/-- A reference to the field with the given name. -/
def RefersTo (dataset : Descriptor) (reference name : String) : Prop :=
  ∃ field, Refers dataset reference field ∧ field.name = name

theorem toList_qualified (id name : String) :
    (id ++ "_" ++ name).toList = id.toList ++ '_' :: name.toList := by
  simp

theorem qualifier_append {id : String} (hid : '_' ∉ id.toList) (name : String) :
    qualifier (id ++ "_" ++ name) = id := by
  have kept : ∀ c ∈ id.toList, decide (c ≠ '_') = true := by
    intro c hc
    simpa using ne_of_mem_of_not_mem hc hid
  rw [qualifier, toList_qualified, List.takeWhile_append_of_pos kept,
    List.takeWhile_cons_of_neg (by simp), List.append_nil, String.ofList_toList]

theorem unqualified?_append {id : String} (hid : '_' ∉ id.toList) (name : String) :
    unqualified? (id ++ "_" ++ name) = some name := by
  have dropped : ∀ c ∈ id.toList, decide (c ≠ '_') = true := by
    intro c hc
    simpa using ne_of_mem_of_not_mem hc hid
  simp only [unqualified?, toList_qualified, List.dropWhile_append_of_pos dropped]
  rw [List.dropWhile_cons_of_neg (by simp)]
  simp

theorem qualifier_of_not_mem {reference : String} (h : '_' ∉ reference.toList) :
    qualifier reference = reference := by
  have kept : ∀ c ∈ reference.toList, decide (c ≠ '_') = true := by
    intro c hc
    simpa using ne_of_mem_of_not_mem hc h
  rw [qualifier, List.takeWhile_eq_self_iff.mpr kept, String.ofList_toList]

theorem unqualified?_of_not_mem {reference : String} (h : '_' ∉ reference.toList) :
    unqualified? reference = none := by
  have dropped : ∀ c ∈ reference.toList, decide (c ≠ '_') = true := by
    intro c hc
    simpa using ne_of_mem_of_not_mem hc h
  simp only [unqualified?, List.dropWhile_eq_nil_iff.mpr dropped]

/-- A reference has no underscore, or it is cut at the first one. -/
theorem reference_cases (reference : String) :
    '_' ∉ reference.toList ∨
      ∃ id name, '_' ∉ id.toList ∧ reference = id ++ "_" ++ name := by
  by_cases h : '_' ∈ reference.toList
  · obtain ⟨before, after, hs, hb⟩ := List.eq_append_cons_of_mem h
    refine .inr ⟨.ofList before, .ofList after, by simpa using hb, ?_⟩
    apply String.toList_injective
    rw [toList_qualified]
    simpa using hs
  · exact .inl h

theorem not_mem_qualifier (reference : String) : '_' ∉ (qualifier reference).toList := by
  rcases reference_cases reference with h | ⟨id, name, hid, rfl⟩
  · rwa [qualifier_of_not_mem h]
  · rwa [qualifier_append hid]

theorem qualifier_eq_iff {reference id : String} :
    qualifier reference = id ↔ Qualifies id reference := by
  constructor
  · rintro rfl
    refine ⟨not_mem_qualifier reference, ?_⟩
    rcases reference_cases reference with h | ⟨id, name, hid, rfl⟩
    · exact .inl (qualifier_of_not_mem h).symm
    · exact .inr ⟨name, by rw [qualifier_append hid]⟩
  · rintro ⟨hid, rfl | ⟨name, rfl⟩⟩
    · exact qualifier_of_not_mem hid
    · exact qualifier_append hid name

theorem qualified_inj {id a b : String} : id ++ "_" ++ a = id ++ "_" ++ b ↔ a = b := by
  rw [← String.toList_inj, toList_qualified, toList_qualified]
  simp [String.toList_inj]

/-! ## Fields and columns -/

theorem Refers.mem {dataset : Descriptor} {reference : String} {field : Field}
    (h : Refers dataset reference field) : '_' ∈ reference.toList := by
  rw [h.2, toList_qualified]
  simp

/-- A field is found under its qualified name and under nothing else. -/
theorem resolveField_eq_ok {dataset : Descriptor} {part : Part} {reference : String}
    {field : Field} (hid : '_' ∉ dataset.id.toList) :
    resolveField dataset part reference = .ok field ↔ Refers dataset reference field := by
  rw [resolveField]
  rcases reference_cases reference with h | ⟨id, name, h, rfl⟩
  · rw [unqualified?_of_not_mem h]
    constructor
    · nofun
    · exact fun found => absurd found.mem h
  · rw [unqualified?_append h, qualifier_append h]
    dsimp only
    constructor
    · intro found
      split at found
      · cases found
      · rename_i same
        split at found
        · cases found
        · rename_i found'
          cases found
          obtain ⟨mem, hn⟩ := Kind.field?_eq_some.mp found'
          exact ⟨mem, by rw [hn, ← not_not.mp same]⟩
    · rintro ⟨mem, hr⟩
      have parts := congrArg (fun s => (qualifier s, unqualified? s)) hr
      simp only [qualifier_append h, qualifier_append hid, unqualified?_append h,
        unqualified?_append hid, Prod.mk.injEq, Option.some.injEq] at parts
      obtain ⟨rfl, rfl⟩ := parts
      simp [Kind.field?_name_of_mem mem]

/-- What a reference names: the apply key that it is, or else the field that it refers to. -/
inductive Resolves (dataset : Descriptor) (keys : List String) (reference : String) : Column → Prop
  | apply (h : reference ∈ keys) : Resolves dataset keys reference (.apply reference)
  | field {field : Field} (h : reference ∉ keys) (found : Refers dataset reference field) :
    Resolves dataset keys reference (.field field.name)

theorem resolveColumn_eq_ok {dataset : Descriptor} {keys : ApplyKeys} {part : Part}
    {reference : String} {column : Column} (hid : '_' ∉ dataset.id.toList) :
    resolveColumn dataset keys part reference = .ok column ↔
      Resolves dataset keys.toList reference column := by
  rw [resolveColumn]
  split
  · rename_i h
    constructor
    · rintro ⟨⟩
      exact .apply h
    · rintro (_ | ⟨h', _⟩)
      · rfl
      · exact absurd h h'
  · rename_i h
    rw [map_eq_ok]
    simp only [resolveField_eq_ok hid]
    constructor
    · rintro ⟨field, found, rfl⟩
      exact .field h found
    · rintro (h' | ⟨_, found⟩)
      · exact absurd h' h
      · exact ⟨_, found, rfl⟩

/-- The members of an object have no other keys than the allowed ones. -/
def KeysAmong (allowed : List String) (members : List (String × Json)) : Prop :=
  ∀ member ∈ members, member.1 ∈ allowed

theorem checkKeys_eq_ok {part : Part} {allowed : List String} {members : List (String × Json)}
    {done : Unit} : checkKeys part allowed members = .ok done ↔ KeysAmong allowed members := by
  rw [checkKeys]
  split
  · rename_i member found
    have bad := List.find?_some found
    simp only [decide_eq_true_eq] at bad
    constructor
    · nofun
    · exact fun h => absurd (h member (List.mem_of_find?_eq_some found)) bad
  · rename_i none
    simpa [KeysAmong] using none

theorem singleMember_eq_ok {part : Part} {document : Json} {member : String × Json} :
    singleMember part document = .ok member ↔ document = .object [member] := by
  unfold singleMember
  split
  · simp
  · rename_i members many
    simp only [Json.object.injEq]
    constructor
    · nofun
    · exact fun h => absurd h (many _)
  · rename_i other
    constructor
    · nofun
    · rintro rfl
      exact absurd rfl (other _)

theorem requireObject_eq_ok {part : Part} {document : Json} {members : List (String × Json)} :
    requireObject part document = .ok members ↔ document = .object members := by
  cases document <;> simp [requireObject]

theorem requireString_eq_ok {part : Part} {document : Json} {s : String} :
    requireString part document = .ok s ↔ document = .string s := by
  cases document <;> simp [requireString]

end Query

end CampusQuery
