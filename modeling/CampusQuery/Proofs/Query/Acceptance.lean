import CampusQuery.Proofs.Query.Reading

/-!
# Which documents are queries

`exists_plan_iff_isQuery`: a document has a plan exactly if the grammar makes it a query. The parts
of a query that the plan needs are read from what the grammar says of them; what remains is that a
condition of the grammar stands for a filter (`isCondition_iff`).
-/

namespace CampusQuery.Query

theorem isCondition_of_compare {dataset : Descriptor} (comparison : Comparison)
    {reference : String} {field : Field} (n : Json.Number) (found : Refers dataset reference field)
    (numeric : field.type = .numeric) :
    IsCondition dataset (.object [(comparison.keyword, .object [(reference, .number n)])]) := by
  cases comparison with
  | greater => exact .greater n found numeric
  | less => exact .less n found numeric
  | equal => exact .equal n found numeric

/-- A condition is a document that stands for a filter. -/
theorem isCondition_iff {dataset : Descriptor} {document : Json} :
    IsCondition dataset document ↔ ∃ filter, ReadsFilter dataset document filter := by
  refine ⟨fun h => ?_, fun ⟨filter, h⟩ => ?_⟩
  · induction h with
    | and nonempty _ ih =>
      obtain ⟨filters, each⟩ := exists_forall₂.mpr ih
      exact ⟨_, .and nonempty each⟩
    | or nonempty _ ih =>
      obtain ⟨filters, each⟩ := exists_forall₂.mpr ih
      exact ⟨_, .or nonempty each⟩
    | not _ ih =>
      obtain ⟨filter, h⟩ := ih
      exact ⟨_, .not h⟩
    | greater n found numeric => exact ⟨_, .compare .greater n found numeric⟩
    | less n found numeric => exact ⟨_, .compare .less n found numeric⟩
    | equal n found numeric => exact ⟨_, .compare .equal n found numeric⟩
    | @is reference raw field found text outer =>
      have written : Pattern.ofText? raw ≠ none :=
        fun none => Pattern.ofText?_eq_none_iff.mp none outer
      obtain ⟨pattern, hp⟩ := Option.ne_none_iff_exists'.mp written
      exact ⟨_, .is found text hp⟩
  · refine ReadsFilter.induction (motive := fun document _ => IsCondition dataset document)
      ?and ?or (fun _ ih => .not ih)
      (fun comparison _ _ n found numeric => isCondition_of_compare comparison n found numeric) ?is h
    case and =>
      intro items filters nonempty each
      refine .and nonempty fun item mem => ?_
      obtain ⟨_, _, h⟩ := exists_forall₂.mp ⟨filters, each⟩ item mem
      exact h
    case or =>
      intro items filters nonempty each
      refine .or nonempty fun item mem => ?_
      obtain ⟨_, _, h⟩ := exists_forall₂.mp ⟨filters, each⟩ item mem
      exact h
    case is =>
      intro reference raw field pattern found text written
      have outer : Pattern.OuterAsterisks raw := by
        by_contra inner
        rw [Pattern.ofText?_eq_none_iff.mpr inner] at written
        cases written
      exact .is found text outer

theorem isConditions_iff {dataset : Descriptor} {members : List (String × Json)} :
    IsConditions dataset members ↔ ∃ filter, ReadsConditions dataset members filter := by
  rw [IsConditions, isCondition_iff]
  refine ⟨fun h => ?_, fun ⟨filter, h⟩ => ?_⟩
  · rcases h with rfl | ⟨filter, h⟩
    · exact ⟨_, .all⟩
    · exact ⟨filter, .filter h⟩
  · cases h with
    | all => exact .inl rfl
    | filter h => exact .inr ⟨filter, h⟩

/-- A document has a plan exactly if it is a query of one of the datasets. -/
theorem exists_plan_iff_isQuery (datasets : List Descriptor) (document : Json) :
    (∃ plan, Plan.ofDocument datasets document = .ok plan) ↔ IsQuery datasets document := by
  simp only [ofDocument_eq_ok_plan, IsQuery]
  refine ⟨fun ⟨plan, parts, outlines, reads⟩ => ⟨parts, outlines, ?_⟩,
    fun ⟨parts, outlines, conditions⟩ => ?_⟩
  · exact isConditions_iff.mpr ⟨plan.filter, reads.filter⟩
  · obtain ⟨filter, hf⟩ := isConditions_iff.mp conditions
    obtain ⟨plan, reads, _⟩ := outlines.exists_reads hf
    exact ⟨plan, parts, outlines, reads⟩

end CampusQuery.Query
