import CampusQuery.Proofs.Pattern
import CampusQuery.Proofs.Query.Reference
import CampusQuery.Query.Conditions

/-!
# How conditions are read

`ReadsFilter` says which filter a document stands for, one constructor for each form of a
condition, and `readFilter_eq_ok` that exactly these documents are read, with exactly these
filters. What is proved of conditions goes by induction on that relation
(`ReadsFilter.induction`), so that nothing else looks into the reader.
-/

namespace CampusQuery

theorem Comparison.ofKeyword?_eq_some {word : String} {comparison : Comparison} :
    ofKeyword? word = some comparison ↔ word = comparison.keyword := by
  refine ⟨fun h => ?_, fun h => by rw [h]; cases comparison <;> rfl⟩
  unfold ofKeyword? at h
  split at h <;> cases h <;> rfl

theorem Operator.ofKeyword?_eq_some {word : String} {operator : Operator} :
    ofKeyword? word = some operator ↔ word = operator.keyword := by
  refine ⟨fun h => ?_, fun h => ?_⟩
  · unfold ofKeyword? at h
    split at h
    · cases h
      rfl
    · cases h
      rfl
    · cases h
      rfl
    · cases h
      rfl
    · obtain ⟨comparison, hc, rfl⟩ := Option.map_eq_some_iff.mp h
      exact Comparison.ofKeyword?_eq_some.mp hc
  · rw [h]
    cases operator with
    | compare comparison => cases comparison <;> rfl
    | _ => rfl

namespace Query

/-- The filter that a condition stands for. -/
inductive ReadsFilter (dataset : Descriptor) : Json → Filter → Prop
  | and {items : List Json} {filters : List Filter} (nonempty : items ≠ [])
    (each : List.Forall₂ (ReadsFilter dataset) items filters) :
    ReadsFilter dataset (.object [("AND", .array items)]) (.and filters)
  | or {items : List Json} {filters : List Filter} (nonempty : items ≠ [])
    (each : List.Forall₂ (ReadsFilter dataset) items filters) :
    ReadsFilter dataset (.object [("OR", .array items)]) (.or filters)
  | not {item : Json} {filter : Filter} (h : ReadsFilter dataset item filter) :
    ReadsFilter dataset (.object [("NOT", item)]) (.not filter)
  | compare (comparison : Comparison) {reference : String} {field : Field} (n : Json.Number)
    (found : Refers dataset reference field) (numeric : field.type = .numeric) :
    ReadsFilter dataset (.object [(comparison.keyword, .object [(reference, .number n)])])
      (.compare comparison field.name n.toBinary64)
  | is {reference raw : String} {field : Field} {pattern : Pattern}
    (found : Refers dataset reference field) (text : field.type = .text)
    (written : Pattern.ofText? raw = some pattern) :
    ReadsFilter dataset (.object [("IS", .object [(reference, .string raw)])])
      (.is field.name pattern)

/-- Induction on conditions, where the children of a node come with what holds of each. -/
theorem ReadsFilter.induction {dataset : Descriptor} {motive : Json → Filter → Prop}
    (and : ∀ {items filters}, items ≠ [] →
      List.Forall₂ (fun item filter => ReadsFilter dataset item filter ∧ motive item filter)
        items filters →
      motive (.object [("AND", .array items)]) (.and filters))
    (or : ∀ {items filters}, items ≠ [] →
      List.Forall₂ (fun item filter => ReadsFilter dataset item filter ∧ motive item filter)
        items filters →
      motive (.object [("OR", .array items)]) (.or filters))
    (not : ∀ {item filter}, ReadsFilter dataset item filter → motive item filter →
      motive (.object [("NOT", item)]) (.not filter))
    (compare : ∀ comparison {reference field} n, Refers dataset reference field →
      field.type = .numeric →
      motive (.object [(comparison.keyword, .object [(reference, .number n)])])
        (.compare comparison field.name n.toBinary64))
    (is : ∀ {reference raw field pattern}, Refers dataset reference field → field.type = .text →
      Pattern.ofText? raw = some pattern →
      motive (.object [("IS", .object [(reference, .string raw)])]) (.is field.name pattern))
    {document : Json} {filter : Filter} (h : ReadsFilter dataset document filter) :
    motive document filter :=
  @ReadsFilter.rec dataset (fun document filter _ => motive document filter)
    (fun items filters _ =>
      List.Forall₂ (fun item filter => ReadsFilter dataset item filter ∧ motive item filter)
        items filters)
    (fun nonempty _ each => and nonempty each) (fun nonempty _ each => or nonempty each)
    (fun h => not h) compare is .nil (fun h _ ih each => .cons ⟨h, ih⟩ each) _ _ h

theorem readFilters_eq_ok {dataset : Descriptor} {part : Part}
    {items : List Json} {filters : List Filter} :
    readFilters dataset part items = .ok filters ↔
      List.Forall₂ (fun item filter => readFilter dataset part item = .ok filter) items filters := by
  induction items generalizing filters with
  | nil => simp [readFilters, eq_comm]
  | cons item items ih =>
    simp only [readFilters, bind_eq_ok, pure_eq_ok, ih, List.forall₂_cons_left_iff]
    refine ⟨fun ⟨filter, hf, rest, hr, h⟩ => ⟨filter, rest, hf, hr, h.symm⟩,
      fun ⟨filter, rest, hf, hr, h⟩ => ⟨filter, hf, rest, hr, h.symm⟩⟩

section

variable {dataset : Descriptor} (hid : '_' ∉ dataset.id.toList)

include hid

theorem readComparison_eq_ok {comparison : Comparison} {body : Json} {filter : Filter} :
    readComparison dataset comparison body = .ok filter ↔
      ∃ reference field n, body = .object [(reference, .number n)] ∧
        Refers dataset reference field ∧ field.type = .numeric ∧
        filter = .compare comparison field.name n.toBinary64 := by
  simp only [readComparison, bind_eq_ok, singleMember_eq_ok, resolveField_eq_ok hid]
  refine ⟨fun ⟨⟨reference, literal⟩, hb, field, found, h⟩ => ?_,
    fun ⟨reference, field, n, hb, found, numeric, hf⟩ =>
      ⟨(reference, .number n), hb, field, found, ?_⟩⟩
  · split at h
    · cases h
    · rename_i numeric
      cases literal with
      | number n =>
        exact ⟨reference, field, n, hb, found, not_not.mp numeric, (pure_eq_ok.mp h).symm⟩
      | _ => cases h
  · rw [if_neg (not_not.mpr numeric), hf]
    rfl

theorem readPattern_eq_ok {body : Json} {filter : Filter} :
    readPattern dataset body = .ok filter ↔
      ∃ reference raw field pattern, body = .object [(reference, .string raw)] ∧
        Refers dataset reference field ∧ field.type = .text ∧
        Pattern.ofText? raw = some pattern ∧ filter = .is field.name pattern := by
  simp only [readPattern, bind_eq_ok, singleMember_eq_ok, resolveField_eq_ok hid]
  refine ⟨fun ⟨⟨reference, literal⟩, hb, field, found, h⟩ => ?_,
    fun ⟨reference, raw, field, pattern, hb, found, text, hp, hf⟩ =>
      ⟨(reference, .string raw), hb, field, found, ?_⟩⟩
  · split at h
    · cases h
    · rename_i text
      cases literal with
      | string raw =>
        dsimp only at h
        split at h
        · rename_i pattern hp
          exact ⟨reference, raw, field, pattern, hb, found, not_not.mp text, hp,
            (pure_eq_ok.mp h).symm⟩
        · cases h
      | _ => cases h
  · rw [if_neg (not_not.mpr text)]
    simp only [hp, hf]
    rfl

/-- The forward half of `readFilter_eq_ok`, by the recursion of the reader. -/
theorem reads_of_readFilter {part : Part} {document : Json} {filter : Filter}
    (h : readFilter dataset part document = .ok filter) : ReadsFilter dataset document filter := by
  refine readFilter.induct
    (fun part document => ∀ filter, readFilter dataset part document = .ok filter →
      ReadsFilter dataset document filter)
    (fun part items => ∀ filters, readFilters dataset part items = .ok filters →
      List.Forall₂ (ReadsFilter dataset) items filters)
    ?unknown ?and ?or ?andOther ?orOther ?not ?is ?compare ?many ?other ?nil ?cons
    part document filter h
  case unknown =>
    intro part word body unknown filter h
    simp [readFilter, unknown] at h
  case and =>
    intro part word item items op ih filter h
    simp only [readFilter, op, bind_eq_ok, pure_eq_ok] at h
    obtain ⟨filters, hf, rfl⟩ := h
    obtain rfl := Operator.ofKeyword?_eq_some.mp op
    exact .and (List.cons_ne_nil _ _) (ih filters hf)
  case or =>
    intro part word item items op ih filter h
    simp only [readFilter, op, bind_eq_ok, pure_eq_ok] at h
    obtain ⟨filters, hf, rfl⟩ := h
    obtain rfl := Operator.ofKeyword?_eq_some.mp op
    exact .or (List.cons_ne_nil _ _) (ih filters hf)
  case andOther | orOther =>
    intro part word body op other filter h
    simp [readFilter, op] at h
  case not =>
    intro part word inner op ih filter h
    simp only [readFilter, op, bind_eq_ok, pure_eq_ok] at h
    obtain ⟨filter, hf, rfl⟩ := h
    obtain rfl := Operator.ofKeyword?_eq_some.mp op
    exact .not (ih filter hf)
  case is =>
    intro part word body op filter h
    simp only [readFilter, op] at h
    obtain rfl := Operator.ofKeyword?_eq_some.mp op
    obtain ⟨reference, raw, field, pattern, rfl, found, text, hp, rfl⟩ :=
      (readPattern_eq_ok hid).mp h
    exact .is found text hp
  case compare =>
    intro part word comparison body op filter h
    rw [readFilter.eq_def] at h
    simp only [op] at h
    obtain rfl := Operator.ofKeyword?_eq_some.mp op
    obtain ⟨reference, field, n, rfl, found, numeric, rfl⟩ := (readComparison_eq_ok hid).mp h
    exact .compare comparison n found numeric
  case many =>
    intro part members many filter h
    simp [readFilter] at h
  case other =>
    intro document part other none filter h
    simp [readFilter] at h
  case nil =>
    intro part filters h
    cases h
    exact .nil
  case cons =>
    intro part item items head tail filters h
    simp only [readFilters, bind_eq_ok, pure_eq_ok] at h
    obtain ⟨filter, hf, rest, hr, rfl⟩ := h
    exact .cons (head filter hf) (tail rest hr)

/-- A document is read as a filter exactly if it stands for it. -/
theorem readFilter_eq_ok {part : Part} {document : Json} {filter : Filter} :
    readFilter dataset part document = .ok filter ↔ ReadsFilter dataset document filter := by
  refine ⟨reads_of_readFilter hid, fun h => ?_⟩
  refine ReadsFilter.induction
    (motive := fun document filter => ∀ part, readFilter dataset part document = .ok filter)
    ?and ?or ?not ?compare ?is h part
  case and =>
    intro items filters nonempty each part
    obtain ⟨item, items, rfl⟩ := List.exists_cons_of_ne_nil nonempty
    have read := readFilters_eq_ok.mpr (each.imp fun _ _ h => h.2 (.filter .and))
    simp [readFilter, Operator.ofKeyword?, read]
  case or =>
    intro items filters nonempty each part
    obtain ⟨item, items, rfl⟩ := List.exists_cons_of_ne_nil nonempty
    have read := readFilters_eq_ok.mpr (each.imp fun _ _ h => h.2 (.filter .or))
    simp [readFilter, Operator.ofKeyword?, read]
  case not =>
    intro item filter _ ih part
    simp [readFilter, Operator.ofKeyword?, ih]
  case compare =>
    intro comparison reference field n found numeric part
    have op : Operator.ofKeyword? comparison.keyword = some (.compare comparison) :=
      Operator.ofKeyword?_eq_some.mpr rfl
    rw [readFilter.eq_def]
    simp only [op]
    exact (readComparison_eq_ok hid).mpr ⟨reference, field, n, rfl, found, numeric, rfl⟩
  case is =>
    intro reference raw field pattern found text written part
    simp only [readFilter, Operator.ofKeyword?]
    exact (readPattern_eq_ok hid).mpr ⟨reference, raw, field, pattern, rfl, found, text, written, rfl⟩

end

end Query

end CampusQuery
