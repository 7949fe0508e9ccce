import CampusQuery.Proofs.Distinct
import CampusQuery.Proofs.Json.Scanning

/-!
# Written documents read back

The reader takes the tokens of a document where a document may start and has finished it then, with
the same containers open as before (`Readable.run?`). With the tokens told from the text, every
layout of a document is read as the document (`Readable.read?`).
-/

namespace CampusQuery.Json

theorem setField_of_not_mem {name : String} {fields : List (String × Json)}
    (fresh : name ∉ fields.map Prod.fst) (value : Json) :
    setField name value fields = fields ++ [(name, value)] := by
  induction fields with
  | nil => rfl
  | cons field fields ih =>
    obtain ⟨other, old⟩ := field
    rw [List.map_cons, List.mem_cons, not_or] at fresh
    rw [setField, if_neg (Ne.symm fresh.1), ih fresh.2, List.cons_append]

theorem Reader.run?_cons {reader next : Reader} {token : Token}
    (step : reader.step? token = some next) (rest : List Token) :
    reader.run? (token :: rest) = next.run? rest := by
  rw [run?, step]

/-- The reader takes the tokens of the document as a value, with the given number of containers
open. -/
def Reads (opened : Nat) (document : Json) : Prop :=
  ∀ stack : List Frame, stack.length = opened → ∀ rest,
    (Reader.value stack).run? (tokens document ++ rest) = (Reader.finished document stack).run? rest

/-- The first item of an array is read like any other. -/
theorem run?_item (stack : List Frame) (item : Json) (rest : List Token) :
    (Reader.item stack).run? (tokens item ++ rest) =
      (Reader.value (.array [] :: stack)).run? (tokens item ++ rest) := by
  rcases item with - | b | n | s | (- | ⟨item, items⟩) | (- | ⟨⟨name, value⟩, fields⟩) <;> rfl

section Containers

variable {opened : Nat} {stack : List Frame} (length : stack.length = opened) (rest : List Token)

include length

theorem run?_itemTokens {items : List Json} (each : ∀ item ∈ items, Reads (opened + 1) item)
    (done : List Json) (value : Json) :
    (Reader.finished value (.array done :: stack)).run? (itemTokens items ++ .closeArray :: rest) =
      (Reader.finished (.array (done.reverse ++ value :: items)) stack).run? rest := by
  induction items generalizing done value with
  | nil =>
    have close : (Reader.finished value (.array done :: stack)).step? .closeArray =
        some (.finished (.array (done.reverse ++ [value])) stack) := by
      rw [← List.reverse_cons]
      rfl
    exact Reader.run?_cons close rest
  | cons item items ih =>
    obtain ⟨first, others⟩ := List.forall_mem_cons.mp each
    have inside : (Frame.array (value :: done) :: stack).length = opened + 1 := by
      rw [List.length_cons, length]
    -- A comma, the item inside the array, and then what follows it.
    rw [itemTokens, List.cons_append, List.append_assoc, Reader.run?_cons rfl, first _ inside,
      ih others, List.reverse_cons, List.append_assoc, List.singleton_append]

theorem run?_fieldTokens {fields : List (String × Json)}
    (each : ∀ field ∈ fields, Reads (opened + 1) field.2) (done : List (String × Json))
    (name : String) (value : Json)
    (nodup : ((done ++ (name, value) :: fields).map Prod.fst).Nodup) :
    (Reader.finished value (.object done name :: stack)).run?
        (fieldTokens fields ++ .closeObject :: rest) =
      (Reader.finished (.object (done ++ (name, value) :: fields)) stack).run? rest := by
  induction fields generalizing done name value with
  | nil =>
    have close : (Reader.finished value (.object done name :: stack)).step? .closeObject =
        some (.finished (.object (done ++ [(name, value)])) stack) := by
      rw [← setField_of_not_mem (not_mem_of_nodup nodup)]
      rfl
    exact Reader.run?_cons close rest
  | cons field fields ih =>
    obtain ⟨next, other⟩ := field
    obtain ⟨first, others⟩ := List.forall_mem_cons.mp each
    have inside : (Frame.object (done ++ [(name, value)]) next :: stack).length = opened + 1 := by
      rw [List.length_cons, length]
    have taken := setField_of_not_mem (not_mem_of_nodup nodup) value
    -- From here on the member that is just finished is one of those before.
    rw [List.append_cons done] at nodup ⊢
    rw [fieldTokens, List.cons_append, List.cons_append, List.cons_append, List.append_assoc,
      Reader.run?_cons rfl, Reader.run?_cons rfl, Reader.run?_cons rfl, taken, first _ inside,
      ih others _ _ _ nodup]

end Containers

/-- The reader takes the tokens of a readable document. -/
theorem Readable.reads {opened : Nat} {document : Json} (h : Readable opened document) :
    Reads opened document := by
  induction h with
  | null => exact fun _ _ rest => Reader.run?_cons rfl rest
  | bool b => exact fun _ _ rest => Reader.run?_cons rfl rest
  | integer _ _ => exact fun _ _ rest => Reader.run?_cons rfl rest
  | string s => exact fun _ _ rest => Reader.run?_cons rfl rest
  | @array opened items room _ ih =>
    intro stack length rest
    have enter : (Reader.value stack).step? .openArray = some (.item stack) :=
      if_pos (length ▸ room)
    cases items with
    | nil => exact (Reader.run?_cons enter _).trans (Reader.run?_cons rfl rest)
    | cons item items =>
      obtain ⟨first, others⟩ := List.forall_mem_cons.mp ih
      have inside : (Frame.array [] :: stack).length = opened + 1 := by
        rw [List.length_cons, length]
      simp only [tokens, List.cons_append, List.append_assoc, List.nil_append]
      rw [Reader.run?_cons enter, run?_item, first _ inside,
        run?_itemTokens length rest others, List.reverse_nil, List.nil_append]
  | @object opened fields room nodup _ ih =>
    intro stack length rest
    have enter : (Reader.value stack).step? .openObject = some (.member stack) :=
      if_pos (length ▸ room)
    cases fields with
    | nil => exact (Reader.run?_cons enter _).trans (Reader.run?_cons rfl rest)
    | cons field fields =>
      obtain ⟨name, value⟩ := field
      obtain ⟨first, others⟩ := List.forall_mem_cons.mp ih
      have inside : (Frame.object [] name :: stack).length = opened + 1 := by
        rw [List.length_cons, length]
      simp only [tokens, List.cons_append, List.append_assoc, List.nil_append]
      rw [Reader.run?_cons enter, Reader.run?_cons rfl, Reader.run?_cons rfl, first _ inside,
        run?_fieldTokens length rest others [] name value nodup, List.nil_append]

/-- A readable document is read back from its text in any layout. -/
theorem Readable.read?_write {document : Json} (h : Readable 0 document) {layout : Layout}
    (blank : layout.Blank) : read? (.ofList (write layout 0 document)) = some document := by
  have scanned := h.scans blank 0 [] [] stops_nil
  have read := h.reads [] rfl []
  rw [List.append_nil] at scanned read
  simp only [read?, String.toList_ofList, scanned, List.append_nil, Token.scanAll,
    List.reverse_reverse, Option.bind_eq_bind, Option.bind_some, read, Reader.run?,
    Reader.document?]

end CampusQuery.Json
