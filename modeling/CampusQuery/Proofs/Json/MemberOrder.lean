import CampusQuery.Proofs.Except
import CampusQuery.Proofs.Json.Distinct

/-!
# The order of members

`Reordered` are documents that are the same but for the order in which the members of their objects
stand, at any depth. It is a symmetric relation.

What is read of a document by name does not depend on the order: the same names stand for documents
that are reordered again (`Reordered.fieldOf?`), and an object with one member keeps it
(`Reordered.exists_singleton`).
-/

namespace CampusQuery.Json

/-- The same document but for the order of the members of its objects, in which a name stands once.
The items of an array keep their places. -/
inductive Reordered : Json → Json → Prop
  | null : Reordered .null .null
  | bool (b : Bool) : Reordered (.bool b) (.bool b)
  | number (n : Number) : Reordered (.number n) (.number n)
  | string (s : String) : Reordered (.string s) (.string s)
  | array {items others : List Json} (each : List.Forall₂ Reordered items others) :
    Reordered (.array items) (.array others)
  | object {members aligned others : List (String × Json)} (nodup : (members.map Prod.fst).Nodup)
    (names : members.map Prod.fst = aligned.map Prod.fst)
    (values : List.Forall₂ Reordered (members.map Prod.snd) (aligned.map Prod.snd))
    (perm : aligned.Perm others) : Reordered (.object members) (.object others)

/-- Induction on reordered documents, where the parts of a document come with what holds of each. -/
theorem Reordered.induction {motive : Json → Json → Prop}
    (null : motive .null .null) (bool : ∀ b, motive (.bool b) (.bool b))
    (number : ∀ n, motive (.number n) (.number n)) (string : ∀ s, motive (.string s) (.string s))
    (array : ∀ {items others}, List.Forall₂ (fun a b => Reordered a b ∧ motive a b) items others →
      motive (.array items) (.array others))
    (object : ∀ {members aligned others : List (String × Json)}, (members.map Prod.fst).Nodup →
      members.map Prod.fst = aligned.map Prod.fst →
      List.Forall₂ (fun a b => Reordered a b ∧ motive a b) (members.map Prod.snd)
        (aligned.map Prod.snd) →
      aligned.Perm others → motive (.object members) (.object others))
    {a b : Json} (h : a.Reordered b) : motive a b :=
  @Reordered.rec (fun a b _ => motive a b)
    (fun items others _ => List.Forall₂ (fun a b => Reordered a b ∧ motive a b) items others)
    null bool number string (fun _ each => array each)
    (fun nodup names _ perm values => object nodup names values perm)
    .nil (fun h _ ih each => .cons ⟨h, ih⟩ each) _ _ h

/-- Members with the same names and with related values. -/
theorem forall₂_members {R : Json → Json → Prop} {members aligned : List (String × Json)} :
    List.Forall₂ (fun a b => a.1 = b.1 ∧ R a.2 b.2) members aligned ↔
      members.map Prod.fst = aligned.map Prod.fst ∧
        List.Forall₂ R (members.map Prod.snd) (aligned.map Prod.snd) := by
  induction members generalizing aligned with
  | nil => cases aligned <;> simp
  | cons member members ih =>
    cases aligned with
    | nil => simp
    | cons other aligned =>
      simp only [List.forall₂_cons, List.map_cons, List.cons.injEq, ih]
      tauto

theorem rel_fieldOf? {R : Json → Json → Prop} {members aligned : List (String × Json)}
    (each : List.Forall₂ (fun a b => a.1 = b.1 ∧ R a.2 b.2) members aligned) (name : String) :
    Option.Rel R (fieldOf? name members) (fieldOf? name aligned) := by
  induction each with
  | nil => exact .none
  | @cons member other _ _ head _ ih =>
    obtain ⟨name', value⟩ := member
    obtain ⟨_, value'⟩ := other
    obtain ⟨rfl, related⟩ := head
    rw [Json.fieldOf?, Json.fieldOf?]
    split
    · exact .some related
    · exact ih

/-- What a name stands for does not depend on the place of its member. -/
theorem fieldOf?_perm {members others : List (String × Json)}
    (nodup : (members.map Prod.fst).Nodup) (perm : members.Perm others) (name : String) :
    fieldOf? name members = fieldOf? name others := by
  have nodup' : (others.map Prod.fst).Nodup := (perm.map _).nodup_iff.mp nodup
  refine Option.ext fun value => ?_
  rw [fieldOf?_eq_some nodup, fieldOf?_eq_some nodup', perm.mem_iff]

namespace Reordered

theorem symm {a b : Json} (h : a.Reordered b) : b.Reordered a := by
  refine h.induction (motive := fun a b => b.Reordered a) .null .bool .number .string ?array ?object
  case array => exact fun each => .array (each.imp fun _ _ h => h.2).flip
  case object =>
    intro members aligned others nodup names values perm
    have each := forall₂_members.mpr ⟨names, values.imp fun _ _ h => h.2⟩
    have back : List.Forall₂ (fun a b => a.1 = b.1 ∧ Reordered a.2 b.2) aligned members :=
      each.flip.imp fun _ _ h => ⟨h.1.symm, h.2⟩
    -- The members are carried along when those beside them are put in the other order.
    obtain ⟨carried, beside, perm'⟩ := List.perm_comp_forall₂ perm.symm back
    obtain ⟨names', values'⟩ := forall₂_members.mp beside
    exact .object ((perm.map _).nodup_iff.mp (names ▸ nodup)) names' values' perm'

/-! ## What is read of reordered documents -/

section Members

variable {members others : List (String × Json)}
  (h : Reordered (.object members) (.object others))

include h

theorem names_perm : (members.map Prod.fst).Perm (others.map Prod.fst) := by
  cases h with
  | object _ names _ perm => exact names ▸ perm.map _

/-- A name stands for reordered documents, or in both places for none. -/
theorem fieldOf? (name : String) :
    Option.Rel Reordered (Json.fieldOf? name members) (Json.fieldOf? name others) := by
  cases h with
  | object nodup names values perm =>
    rw [← fieldOf?_perm (names ▸ nodup) perm]
    exact rel_fieldOf? (forall₂_members.mpr ⟨names, values⟩) name

theorem exists_fieldOf? {name : String} {value : Json}
    (found : Json.fieldOf? name members = some value) :
    ∃ other, Json.fieldOf? name others = some other ∧ value.Reordered other := by
  have rel := h.fieldOf? name
  rw [found] at rel
  generalize Json.fieldOf? name others = other at rel
  cases rel with
  | some same => exact ⟨_, rfl, same⟩

end Members

theorem exists_object {members : List (String × Json)} {b : Json}
    (h : Reordered (.object members) b) :
    ∃ others, b = .object others ∧ Reordered (.object members) (.object others) := by
  cases h with
  | object nodup names values perm => exact ⟨_, rfl, .object nodup names values perm⟩

theorem exists_singleton {name : String} {value b : Json}
    (h : Reordered (.object [(name, value)]) b) :
    ∃ other, b = .object [(name, other)] ∧ value.Reordered other := by
  cases h with
  | @object _ aligned _ nodup names values perm =>
    obtain ⟨⟨_, other⟩, rfl⟩ : ∃ member, aligned = [member] := by
      simpa [List.length_eq_one_iff] using (congrArg List.length names).symm
    obtain rfl := List.singleton_perm.mp perm
    simp only [List.map_cons, List.map_nil, List.cons.injEq, and_true] at names
    simp only [List.map_cons, List.map_nil, List.forall₂_cons] at values
    exact ⟨other, by rw [names], values.1⟩

theorem eq_string {s : String} {b : Json} (h : Reordered (.string s) b) : b = .string s := by
  cases h
  rfl

theorem eq_number {n : Number} {b : Json} (h : Reordered (.number n) b) : b = .number n := by
  cases h
  rfl

theorem exists_array {items : List Json} {b : Json} (h : Reordered (.array items) b) :
    ∃ others, b = .array others ∧ List.Forall₂ Reordered items others := by
  cases h with
  | array each => exact ⟨_, rfl, each⟩

theorem eq_strings {strings : List String} {b : Json}
    (h : Reordered (.array (strings.map .string)) b) : b = .array (strings.map .string) := by
  obtain ⟨others, rfl, each⟩ := h.exists_array
  rw [List.forall₂_map_left_iff] at each
  clear h
  congr 1
  induction each with
  | nil => rfl
  | cons head _ ih => rw [List.map_cons, head.eq_string, ih]

section Named

variable {members others : List (String × Json)}
  (h : Reordered (.object members) (.object others)) {name : String}

include h

theorem exists_fieldOf?_object {fields : List (String × Json)}
    (found : Json.fieldOf? name members = some (.object fields)) :
    ∃ fields', Json.fieldOf? name others = some (.object fields') ∧
      Reordered (.object fields) (.object fields') := by
  obtain ⟨other, found', same⟩ := h.exists_fieldOf? found
  obtain ⟨fields', rfl, same⟩ := same.exists_object
  exact ⟨fields', found', same⟩

theorem fieldOf?_string {s : String} (found : Json.fieldOf? name members = some (.string s)) :
    Json.fieldOf? name others = some (.string s) := by
  obtain ⟨other, found', same⟩ := h.exists_fieldOf? found
  rw [found', same.eq_string]

theorem fieldOf?_strings {strings : List String}
    (found : Json.fieldOf? name members = some (.array (strings.map .string))) :
    Json.fieldOf? name others = some (.array (strings.map .string)) := by
  obtain ⟨other, found', same⟩ := h.exists_fieldOf? found
  rw [found', same.eq_strings]

end Named

end Reordered

end CampusQuery.Json
