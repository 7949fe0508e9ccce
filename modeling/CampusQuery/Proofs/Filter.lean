import CampusQuery.Proofs.Catalog.History
import CampusQuery.Filter

/-!
# Filters as a Boolean algebra

The laws by which a filter is rewritten are De Morgan's, for nodes with any number of children, the
cancelling of double negations, and the splicing of a conjunction into a conjunction and of a
disjunction into a disjunction (`Filter.Step`). A negation is never turned into another comparison:
it is the complement of what it negates also on rows without the field, with a text for a number or
with a NaN. So every law keeps what a filter accepts, wherever in the filter it is used
(`Step.accepts_eq`).

`Filter.normalForm` is what the laws lead to: negations are left over comparisons only, and no node
has a child of its own kind (`Filter.IsNormal`). It goes down a filter with the sign that the
negations above amount to, so that both what it says of a filter and of its negation go by one
induction (`rewrites_normalize`).

`Filter.select_laws` puts this together with what is kept of a list of rows.
-/

namespace CampusQuery

namespace Filter

/-- The rows at the accepted positions are kept, in the order of the positions. -/
theorem exists_positions (filter : Filter) (rows : List Row) :
    ∃ positions : List (Fin rows.length), positions.Pairwise (· < ·) ∧
      (∀ i, i ∈ positions ↔ filter.accepts rows[i] = true) ∧
      filter.select rows = positions.map (rows[·]) := by
  refine ⟨(List.finRange rows.length).filter fun i => filter.accepts rows[i],
    (List.pairwise_lt_finRange rows.length).filter _, fun i => by simp, ?_⟩
  have listed : (List.finRange rows.length).map (rows[·]) = rows := List.map_getElem_finRange rows
  rw [select_eq_filter]
  conv_lhs => rw [← listed]
  rw [List.filter_map]
  rfl

theorem select_all (rows : List Row) : all.select rows = rows := rfl

theorem foldl_select (filters : List Filter) (rows : List Row) :
    filters.foldl (fun kept filter => filter.select kept) rows = (and filters).select rows := by
  induction filters generalizing rows with
  | nil => exact (List.filter_eq_self.mpr fun _ _ => rfl).symm
  | cons filter filters ih =>
    rw [List.foldl_cons, ih, select_eq_filter, select_eq_filter, select_eq_filter, List.filter_filter]
    refine List.filter_congr fun row _ => ?_
    simp only [accepts, acceptsEvery, Bool.and_comm]

theorem select_perm {filters filters' : List Filter} (perm : filters.Perm filters')
    (rows : List Row) : (and filters).select rows = (and filters').select rows := by
  rw [select_eq_filter, select_eq_filter]
  refine List.filter_congr fun row _ => ?_
  simp only [accepts, acceptsEvery_eq_all, perm.all_eq]

/-- The two ways to join filters. -/
inductive Junction
  | conjunction
  | disjunction

namespace Junction

/-- What a negation turns the junction into. -/
def dual : Junction → Junction
  | conjunction => disjunction
  | disjunction => conjunction

/-- The filter that joins others. -/
def of : Junction → List Filter → Filter
  | conjunction => and
  | disjunction => or

/-- The filters that a filter joins in the given way, or the filter by itself. -/
def parts : Junction → Filter → List Filter
  | conjunction, and children => children
  | disjunction, or children => children
  | _, filter => [filter]

/-- The junction, or its dual if the sign is negative. -/
def turn (positive : Bool) (junction : Junction) : Junction :=
  if positive then junction else junction.dual

/-- Joins filters, with the children of those that are joined in the same way in their place. -/
def splice (junction : Junction) (filters : List Filter) : Filter :=
  junction.of (filters.flatMap junction.parts)

theorem of_inj {a b : Junction} {left right : List Filter} (h : a.of left = b.of right) :
    a = b ∧ left = right := by
  cases a <;> cases b <;> cases h <;> exact ⟨rfl, rfl⟩

theorem parts_of (junction : Junction) (children : List Filter) :
    junction.parts (junction.of children) = children := by
  cases junction <;> rfl

theorem parts_cases (junction : Junction) (filter : Filter) :
    (∃ children, filter = junction.of children) ∨
      (∀ children, filter ≠ junction.of children) ∧ junction.parts filter = [filter] := by
  cases junction <;> cases filter <;> simp [of, parts]

end Junction

/-! ## Laws -/

/-- One use of a law, at the top of a filter or anywhere within it. `all` is negated as the
conjunction of no filters would be. -/
inductive Step : Filter → Filter → Prop
  | notNot (child : Filter) : Step (.not (.not child)) child
  | notAll : Step (.not .all) (.or [])
  | deMorgan (junction : Junction) (children : List Filter) :
    Step (.not (junction.of children)) (junction.dual.of (children.map .not))
  | splice (junction : Junction) (before inner after : List Filter) :
    Step (junction.of (before ++ junction.of inner :: after))
      (junction.of (before ++ inner ++ after))
  | child (junction : Junction) (before after : List Filter) {child child' : Filter}
    (h : Step child child') :
    Step (junction.of (before ++ child :: after)) (junction.of (before ++ child' :: after))
  | not {child child' : Filter} (h : Step child child') : Step (.not child) (.not child')

theorem Step.accepts_eq {filter filter' : Filter} (h : Step filter filter') (row : Row) :
    filter'.accepts row = filter.accepts row := by
  induction h with
  | notNot child => simp only [accepts, Bool.not_not]
  | notAll => rfl
  | deMorgan junction children =>
    cases junction <;>
      simp [Junction.of, Junction.dual, accepts, acceptsEvery_eq_all, acceptsSome_eq_any,
        List.not_all_eq_any_not, List.not_any_eq_all_not, Function.comp_def]
  | splice junction before inner after =>
    cases junction <;> simp [Junction.of, accepts, acceptsEvery_eq_all, acceptsSome_eq_any]
  | child junction before after h ih =>
    cases junction <;>
      simp [Junction.of, accepts, acceptsEvery_eq_all, acceptsSome_eq_any, ih]
  | not h ih => simp only [accepts, ih]

/-- Any number of uses of the laws. -/
abbrev Rewrites : Filter → Filter → Prop := Relation.ReflTransGen Step

namespace Rewrites

variable {filter filter' : Filter}

theorem accepts_eq (h : Rewrites filter filter') (row : Row) :
    filter'.accepts row = filter.accepts row := by
  induction h with
  | refl => rfl
  | tail _ step ih => rw [step.accepts_eq, ih]

theorem select_eq (h : Rewrites filter filter') (rows : List Row) :
    filter'.select rows = filter.select rows := by
  rw [select_eq_filter, select_eq_filter]
  exact List.filter_congr fun row _ => h.accepts_eq row

theorem children (junction : Junction) {filters filters' : List Filter}
    (each : List.Forall₂ Rewrites filters filters') (before : List Filter) :
    Rewrites (junction.of (before ++ filters)) (junction.of (before ++ filters')) := by
  induction each generalizing before with
  | nil => exact .refl
  | @cons child child' rest rest' head _ ih =>
    have first : Rewrites (junction.of (before ++ child :: rest))
        (junction.of (before ++ child' :: rest)) :=
      head.lift (fun child => junction.of (before ++ child :: rest))
        fun _ _ => .child junction before rest
    have later := ih (before ++ [child'])
    rw [List.append_assoc, List.append_assoc] at later
    exact first.trans later

theorem splice (junction : Junction) (filters before : List Filter) :
    Rewrites (junction.of (before ++ filters))
      (junction.of (before ++ filters.flatMap junction.parts)) := by
  induction filters generalizing before with
  | nil => exact .refl
  | cons filter filters ih =>
    rw [List.flatMap_cons]
    rcases junction.parts_cases filter with ⟨inner, rfl⟩ | ⟨_, alone⟩
    · have later := ih (before ++ inner)
      rw [List.append_assoc before inner (List.flatMap _ _)] at later
      rw [junction.parts_of]
      exact .head (.splice junction before inner filters) later
    · have later := ih (before ++ [filter])
      rw [List.append_assoc, List.append_assoc] at later
      rwa [alone]

end Rewrites

/-! ## Normal form -/

mutual

/-- The normal form of a filter, or of its negation if the sign is negative. -/
def normalize (positive : Bool) : Filter → Filter
  | all => if positive then all else or []
  | and children => (Junction.conjunction.turn positive).splice (normalizeEach positive children)
  | or children => (Junction.disjunction.turn positive).splice (normalizeEach positive children)
  | not child => normalize (!positive) child
  | compare comparison field literal =>
    if positive then compare comparison field literal else not (compare comparison field literal)
  | is field pattern => if positive then is field pattern else not (is field pattern)

def normalizeEach (positive : Bool) : List Filter → List Filter
  | [] => []
  | child :: children => normalize positive child :: normalizeEach positive children

end

/-- The filter with every negation pushed down to the comparisons and nested junctions of one kind
made one. -/
def normalForm (filter : Filter) : Filter := filter.normalize true

theorem normalizeEach_eq_map (positive : Bool) (children : List Filter) :
    normalizeEach positive children = children.map (normalize positive) := by
  induction children with
  | nil => rfl
  | cons child children ih => rw [normalizeEach, ih, List.map_cons]

theorem normalize_of (positive : Bool) (junction : Junction) (children : List Filter) :
    normalize positive (junction.of children) =
      (junction.turn positive).splice (children.map (normalize positive)) := by
  rw [← normalizeEach_eq_map]
  cases junction with
  | conjunction => exact normalize.eq_2 positive children
  | disjunction => exact normalize.eq_3 positive children

/-- Comparisons of a number or a text. -/
inductive IsComparison : Filter → Prop
  | compare (comparison : Comparison) (field : String) (literal : Binary64) :
    IsComparison (.compare comparison field literal)
  | is (field : String) (pattern : Pattern) : IsComparison (.is field pattern)

/-- Negations stand over comparisons only, and nothing is joined with others in the way in which it
joins its own children. -/
inductive IsNormal : Filter → Prop
  | all : IsNormal .all
  | comparison {filter : Filter} (h : filter.IsComparison) : IsNormal filter
  | negation {filter : Filter} (h : filter.IsComparison) : IsNormal (.not filter)
  | junction (junction : Junction) {children : List Filter}
    (each : ∀ child ∈ children, IsNormal child) (spliced : ∀ inner, junction.of inner ∉ children) :
    IsNormal (junction.of children)

/-- Induction on filters, where the children of a node come with what holds of each. -/
theorem induction {motive : Filter → Prop} (all : motive .all)
    (comparison : ∀ filter, filter.IsComparison → motive filter)
    (not : ∀ child, motive child → motive (.not child))
    (junction : ∀ (junction : Junction) (children : List Filter),
      (∀ child ∈ children, motive child) → motive (junction.of children))
    (filter : Filter) : motive filter :=
  match filter with
  | .all => all
  | .compare _ _ _ => comparison _ (.compare _ _ _)
  | .is _ _ => comparison _ (.is _ _)
  | .not child => not child (induction all comparison not junction child)
  | .and children =>
    junction .conjunction children fun child _ => induction all comparison not junction child
  | .or children =>
    junction .disjunction children fun child _ => induction all comparison not junction child

/-- A filter, or its negation if the sign is negative. -/
def signed (positive : Bool) (filter : Filter) : Filter := if positive then filter else .not filter

theorem IsComparison.normalize_eq {filter : Filter} (h : filter.IsComparison) (positive : Bool) :
    filter.normalize positive = filter.signed positive := by
  cases h <;> rfl

theorem rewrites_signed_of (positive : Bool) (junction : Junction) (children : List Filter) :
    Rewrites (signed positive (junction.of children))
      ((junction.turn positive).of (children.map (signed positive))) := by
  cases positive with
  | false => exact .single (.deMorgan junction children)
  | true =>
    have same : children.map (signed true) = children := List.map_id' children
    rw [same]
    exact .refl

/-- The laws lead from a filter, and from its negation, to the normal form. -/
theorem rewrites_normalize (filter : Filter) :
    ∀ positive, Rewrites (filter.signed positive) (filter.normalize positive) := by
  induction filter using Filter.induction with
  | all =>
    intro positive
    cases positive with
    | true => exact .refl
    | false => exact .single .notAll
  | comparison filter h =>
    intro positive
    rw [h.normalize_eq]
  | not child ih =>
    intro positive
    cases positive with
    | true => exact ih false
    | false => exact .head (.notNot child) (ih true)
  | junction junction children ih =>
    intro positive
    have each : List.Forall₂ Rewrites (children.map (signed positive))
        (children.map (normalize positive)) := by
      rw [List.forall₂_map_left_iff, List.forall₂_map_right_iff, List.forall₂_same]
      exact fun child mem => ih child mem positive
    rw [normalize_of]
    exact (rewrites_signed_of positive junction children).trans
      ((Rewrites.children _ each []).trans (Rewrites.splice _ _ []))

theorem isNormal_of {junction : Junction} {children : List Filter}
    (h : IsNormal (junction.of children)) :
    (∀ child ∈ children, IsNormal child) ∧ ∀ inner, junction.of inner ∉ children := by
  generalize shape : junction.of children = filter at h
  cases h with
  | all => cases junction <;> cases shape
  | comparison h => cases junction <;> cases h <;> cases shape
  | negation h => cases junction <;> cases shape
  | junction other each spliced =>
    obtain ⟨rfl, rfl⟩ := Junction.of_inj shape
    exact ⟨each, spliced⟩

theorem isNormal_splice (junction : Junction) {filters : List Filter}
    (each : ∀ filter ∈ filters, IsNormal filter) : IsNormal (junction.splice filters) := by
  have parts : ∀ filter, IsNormal filter → ∀ part ∈ junction.parts filter,
      IsNormal part ∧ ∀ inner, part ≠ junction.of inner := by
    intro filter normal part mem
    rcases junction.parts_cases filter with ⟨children, rfl⟩ | ⟨other, alone⟩
    · rw [junction.parts_of] at mem
      obtain ⟨each, spliced⟩ := isNormal_of normal
      refine ⟨each part mem, ?_⟩
      rintro inner rfl
      exact spliced inner mem
    · rw [alone] at mem
      obtain rfl := List.mem_singleton.mp mem
      exact ⟨normal, other⟩
  refine .junction junction (fun part mem => ?_) fun inner mem => ?_
  · obtain ⟨filter, hf, hp⟩ := List.mem_flatMap.mp mem
    exact (parts filter (each filter hf) part hp).1
  · obtain ⟨filter, hf, hp⟩ := List.mem_flatMap.mp mem
    exact (parts filter (each filter hf) _ hp).2 inner rfl

theorem isNormal_normalize (filter : Filter) : ∀ positive, IsNormal (filter.normalize positive) := by
  induction filter using Filter.induction with
  | all =>
    intro positive
    cases positive with
    | true => exact .all
    | false => exact @isNormal_splice .disjunction [] nofun
  | comparison filter h =>
    intro positive
    rw [h.normalize_eq]
    cases positive with
    | true => exact .comparison h
    | false => exact .negation h
  | not child ih =>
    intro positive
    exact ih (!positive)
  | junction junction children ih =>
    intro positive
    rw [normalize_of]
    refine isNormal_splice _ fun filter mem => ?_
    obtain ⟨child, hc, rfl⟩ := List.mem_map.mp mem
    exact ih child hc positive

/-- The rows that a filter keeps are those at the accepted positions, in their order, and all of
them without a condition; a conjunction keeps what is left when its children are applied one after
another in any order; and the laws, which lead to the normal form, keep the same rows. -/
theorem select_laws (filter : Filter) (rows : List Row) :
    (∃ positions : List (Fin rows.length), positions.Pairwise (· < ·) ∧
      (∀ i, i ∈ positions ↔ filter.accepts rows[i] = true) ∧
      filter.select rows = positions.map (rows[·])) ∧
    all.select rows = rows ∧
    (∀ children order : List Filter, order.Perm children →
      (and children).select rows = order.foldl (fun kept child => child.select kept) rows) ∧
    (∀ other, Rewrites filter other → other.select rows = filter.select rows) ∧
    Rewrites filter filter.normalForm ∧ filter.normalForm.IsNormal ∧
    filter.normalForm.select rows = filter.select rows := by
  have leads : Rewrites filter filter.normalForm := rewrites_normalize filter true
  refine ⟨exists_positions filter rows, select_all rows, fun children order perm => ?_,
    fun other rewrites => rewrites.select_eq rows, leads, isNormal_normalize filter true,
    leads.select_eq rows⟩
  rw [foldl_select, select_perm perm]

def above : Filter := .compare .greater "avg" (.ofInt 80)

def inCpsc : Filter := .is "dept" ⟨false, "cpsc", false⟩

/-- A negation over both kinds of junctions. -/
def notBoth : Filter := .not (.and [above, .not (.or [.all, inCpsc])])

theorem select_laws_courses :
    notBoth.normalForm = .or [.not above, .all, inCpsc] ∧
    (∃ positions : List (Fin Table.courses.rows.length), positions.Pairwise (· < ·) ∧
      (∀ i, i ∈ positions ↔ notBoth.accepts Table.courses.rows[i] = true) ∧
      notBoth.select Table.courses.rows = positions.map (Table.courses.rows[·])) ∧
    (and [above, inCpsc]).select Table.courses.rows =
      above.select (inCpsc.select Table.courses.rows) ∧
    (or [.not above, .all, inCpsc]).select Table.courses.rows =
      notBoth.select Table.courses.rows := by
  have shape : notBoth.normalForm = .or [.not above, .all, inCpsc] := rfl
  obtain ⟨positions, _, every, rewritten, _⟩ := select_laws notBoth Table.courses.rows
  have leads : Rewrites notBoth (.or [.not above, .all, inCpsc]) :=
    shape ▸ rewrites_normalize notBoth true
  have inTurn := every [above, inCpsc] [inCpsc, above] (.swap above inCpsc [])
  rw [List.foldl_cons, List.foldl_cons, List.foldl_nil] at inTurn
  exact ⟨shape, positions, inTurn, rewritten _ leads⟩

end Filter

end CampusQuery
