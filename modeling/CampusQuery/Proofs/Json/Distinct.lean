import Mathlib
import CampusQuery.Json.Reader

/-!
# Names in documents

A document is distinct if no object in it has two members of one name. What is read from a text is
distinct (`distinct_of_read?`), for a name that comes again takes the place of the one before. The
invariant is that of the arrays and objects that are still open (`Reader.Distinct`), and every token
keeps it (`Reader.Distinct.step`).

Among distinct names the first member with a name is the only one (`fieldOf?_eq_some`).
-/

namespace CampusQuery.Json

/-- No object in the document, itself included, has two members of one name. -/
inductive Distinct : Json → Prop
  | null : Distinct .null
  | bool (b : Bool) : Distinct (.bool b)
  | number (n : Number) : Distinct (.number n)
  | string (s : String) : Distinct (.string s)
  | array {items : List Json} (each : ∀ item ∈ items, Distinct item) : Distinct (.array items)
  | object {fields : List (String × Json)} (names : (fields.map Prod.fst).Nodup)
    (each : ∀ field ∈ fields, Distinct field.2) : Distinct (.object fields)

theorem mem_setField {name : String} {value : Json} {fields : List (String × Json)}
    {field : String × Json} (mem : field ∈ setField name value fields) :
    field.2 = value ∨ field ∈ fields := by
  induction fields with
  | nil => exact .inl (by rw [List.mem_singleton.mp mem])
  | cons head rest ih =>
    rw [setField] at mem
    split at mem
    · rcases List.mem_cons.mp mem with rfl | mem
      · exact .inl rfl
      · exact .inr (List.mem_cons_of_mem _ mem)
    · rcases List.mem_cons.mp mem with rfl | mem
      · exact .inr List.mem_cons_self
      · exact (ih mem).imp_right (List.mem_cons_of_mem _)

theorem mem_of_fieldOf? {fields : List (String × Json)} {name : String} {value : Json}
    (found : fieldOf? name fields = some value) : (name, value) ∈ fields := by
  induction fields with
  | nil => nomatch found
  | cons head rest ih =>
    rw [fieldOf?] at found
    split at found
    · rename_i same
      rw [← Option.some.inj found, ← same]
      exact List.mem_cons_self
    · exact List.mem_cons_of_mem _ (ih found)

theorem fieldOf?_eq_some {fields : List (String × Json)} (names : (fields.map Prod.fst).Nodup)
    {name : String} {value : Json} :
    fieldOf? name fields = some value ↔ (name, value) ∈ fields := by
  refine ⟨mem_of_fieldOf?, fun mem => ?_⟩
  induction fields with
  | nil => nomatch mem
  | cons head rest ih =>
    obtain ⟨fresh, names⟩ := List.nodup_cons.mp names
    rw [fieldOf?]
    rcases List.mem_cons.mp mem with rfl | later
    · rw [if_pos rfl]
    · rw [if_neg fun same => fresh (List.mem_map.mpr ⟨_, later, same.symm⟩), ih names later]

theorem isSome_fieldOf? {fields : List (String × Json)} {name : String} :
    (fieldOf? name fields).isSome ↔ name ∈ fields.map Prod.fst := by
  induction fields with
  | nil => simp [fieldOf?]
  | cons head rest ih =>
    rw [fieldOf?, List.map_cons, List.mem_cons, ← ih]
    split
    · rename_i same
      simp [same]
    · rename_i other
      simp [Ne.symm other]

theorem distinct_array {items : List Json} :
    Distinct (.array items) ↔ ∀ item ∈ items, item.Distinct :=
  ⟨fun | .array each => each, .array⟩

theorem distinct_object {fields : List (String × Json)} :
    Distinct (.object fields) ↔
      (fields.map Prod.fst).Nodup ∧ ∀ field ∈ fields, field.2.Distinct :=
  ⟨fun | .object names each => ⟨names, each⟩, fun h => .object h.1 h.2⟩

namespace Distinct

theorem get? {document : Json} (h : document.Distinct) {name : String} {value : Json}
    (found : document.get? name = some value) : value.Distinct := by
  cases h with
  | object _ each => exact each _ (mem_of_fieldOf? found)
  | _ => nomatch found

theorem cons {items : List Json} (h : Distinct (.array items)) {value : Json}
    (hv : value.Distinct) : Distinct (.array (value :: items)) :=
  distinct_array.mpr (List.forall_mem_cons.mpr ⟨hv, distinct_array.mp h⟩)

theorem reverse {items : List Json} (h : Distinct (.array items)) :
    Distinct (.array items.reverse) :=
  distinct_array.mpr fun item mem => distinct_array.mp h item (List.mem_reverse.mp mem)

theorem setField {fields : List (String × Json)} (h : Distinct (.object fields)) {value : Json}
    (hv : value.Distinct) (name : String) : Distinct (.object (setField name value fields)) := by
  obtain ⟨names, each⟩ := distinct_object.mp h
  refine .object ?_ fun field mem => ?_
  · rw [names_setField]
    split
    · exact names
    · rename_i fresh
      exact List.concat_eq_append ▸ names.concat fresh
  · rcases mem_setField mem with same | old
    · exact same ▸ hv
    · exact each field old

end Distinct

/-! ## The reader -/

/-- What has been read of a container so far is distinct. -/
def Frame.Distinct : Frame → Prop
  | .array items => Json.Distinct (.array items)
  | .object fields _ => Json.Distinct (.object fields)

namespace Reader

/-- All that has been read so far is distinct. -/
def Distinct : Reader → Prop
  | .value stack | .item stack | .member stack => ∀ frame ∈ stack, frame.Distinct
  | .name fields stack | .colon fields _ stack =>
    Json.Distinct (.object fields) ∧ ∀ frame ∈ stack, frame.Distinct
  | .finished document stack => document.Distinct ∧ ∀ frame ∈ stack, frame.Distinct

theorem Distinct.start {stack : List Frame} (h : ∀ frame ∈ stack, frame.Distinct) {token : Token}
    {next : Reader} (start : start? stack token = some next) : next.Distinct := by
  have enter (reader : Reader) (hr : reader.Distinct)
      (entered : enter? stack reader = some next) : next.Distinct := by
    rw [enter?, Option.ite_none_right_eq_some] at entered
    exact Option.some.inj entered.2 ▸ hr
  cases token with
  | null => exact Option.some.inj start ▸ ⟨.null, h⟩
  | bool b => exact Option.some.inj start ▸ ⟨.bool b, h⟩
  | number n => exact Option.some.inj start ▸ ⟨.number n, h⟩
  | string s => exact Option.some.inj start ▸ ⟨.string s, h⟩
  | openArray => exact enter (.item stack) h start
  | openObject => exact enter (.member stack) h start
  | _ => nomatch start

theorem Distinct.continue {document : Json} {stack : List Frame} (hd : document.Distinct)
    (h : ∀ frame ∈ stack, frame.Distinct) {token : Token} {next : Reader}
    (continued : continue? document stack token = some next) : next.Distinct := by
  unfold continue? at continued
  split at continued
  · obtain ⟨head, rest⟩ := List.forall_mem_cons.mp h
    exact Option.some.inj continued ▸ List.forall_mem_cons.mpr ⟨Json.Distinct.cons head hd, rest⟩
  · obtain ⟨head, rest⟩ := List.forall_mem_cons.mp h
    exact Option.some.inj continued ▸ ⟨(Json.Distinct.cons head hd).reverse, rest⟩
  · obtain ⟨head, rest⟩ := List.forall_mem_cons.mp h
    exact Option.some.inj continued ▸ ⟨Json.Distinct.setField head hd _, rest⟩
  · obtain ⟨head, rest⟩ := List.forall_mem_cons.mp h
    exact Option.some.inj continued ▸ ⟨Json.Distinct.setField head hd _, rest⟩
  · cases continued

theorem Distinct.step {reader next : Reader} (h : reader.Distinct) {token : Token}
    (step : reader.step? token = some next) : next.Distinct := by
  have none : Json.Distinct (.array []) := .array fun _ mem => nomatch mem
  have opened : (Frame.array []).Distinct := none
  have empty : Json.Distinct (.object []) := .object .nil fun _ mem => nomatch mem
  unfold step? at step
  split at step
  · exact Distinct.start h step
  · exact Option.some.inj step ▸ ⟨none, h⟩
  · exact Distinct.start (List.forall_mem_cons.mpr ⟨opened, h⟩) step
  · exact Option.some.inj step ▸ ⟨empty, h⟩
  · exact Option.some.inj step ▸ ⟨empty, h⟩
  · cases step
  · exact Option.some.inj step ▸ h
  · cases step
  · exact Option.some.inj step ▸ List.forall_mem_cons.mpr h
  · cases step
  · exact Distinct.continue h.1 h.2 step

theorem Distinct.run {reader last : Reader} (h : reader.Distinct) {tokens : List Token}
    (run : reader.run? tokens = some last) : last.Distinct := by
  induction tokens generalizing reader with
  | nil => exact Option.some.inj run ▸ h
  | cons token tokens ih =>
    rw [run?] at run
    split at run
    · cases run
    · rename_i next step
      exact ih (h.step step) run

end Reader

theorem distinct_of_read? {text : String} {document : Json} (h : read? text = some document) :
    document.Distinct := by
  simp only [read?, Option.bind_eq_bind, Option.bind_eq_some_iff] at h
  obtain ⟨tokens, _, reader, run, last⟩ := h
  have start : (Reader.value []).Distinct := nofun
  have distinct := start.run run
  unfold Reader.document? at last
  split at last
  · exact Option.some.inj last ▸ distinct.1
  · cases last

end CampusQuery.Json
