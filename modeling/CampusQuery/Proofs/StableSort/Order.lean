import CampusQuery.StableSort
import Mathlib

/-!
# Order and place

Items are in order if none is greater than a later one. A stable sort also keeps the order of level
items, so it is a sort by two things: the comparison, and the place in the list that is sorted
(`Before`). Items with places of their own are in that order in one way only (`eq_of_before`).

`Sorts` is what each part of the sort does: what it gives has all items, in order if the comparison
is coherent; and then it gives something.
-/

namespace CampusQuery.StableSort

/-- A strict weak order: level items are level with the same items. -/
structure Coherent {α : Type} (less : α → α → Bool) : Prop where
  asymm {a b : α} (h : less a b = true) : less b a = false
  trans {a b c : α} (ab : less b a = false) (bc : less c b = false) : less c a = false

/-- The item is less, or it is level and comes from an earlier place. -/
def Before {α : Type} (less : α → α → Bool) (place : α → Nat) (a b : α) : Prop :=
  less b a = false ∧ (less a b = false → place a < place b)

section

variable {α : Type} {less : α → α → Bool} {place : α → Nat} {a b c : α} {items items' : List α}

theorem Coherent.irrefl (h : Coherent less) (a : α) : less a a = false := by
  cases self : less a a with
  | false => rfl
  | true => exact self.symm.trans (h.asymm self)

variable (place) in
theorem Coherent.before_of_less (h : Coherent less) (ab : less a b = true) :
    Before less place a b :=
  ⟨h.asymm ab, fun level => absurd (ab.symm.trans level) nofun⟩

theorem Coherent.less_of_le_of_less (h : Coherent less) (ab : less b a = false)
    (bc : less b c = true) : less a c = true := by
  refine Bool.eq_true_of_not_eq_false fun ca => ?_
  exact absurd (bc.symm.trans (h.trans ca ab)) nofun

theorem Coherent.less_of_less_of_le (h : Coherent less) (ab : less a b = true)
    (bc : less c b = false) : less a c = true := by
  refine Bool.eq_true_of_not_eq_false fun ca => ?_
  exact absurd (ab.symm.trans (h.trans bc ca)) nofun

theorem Before.of_place (ba : less b a = false) (earlier : place a < place b) :
    Before less place a b :=
  ⟨ba, fun _ => earlier⟩

theorem Before.trans (h : Coherent less) (ab : Before less place a b)
    (bc : Before less place b c) : Before less place a c := by
  refine ⟨h.trans ab.1 bc.1, fun level => ?_⟩
  have first : less a b = false := h.trans bc.1 level
  have second : less b c = false := h.trans level ab.1
  exact (ab.2 first).trans (bc.2 second)

theorem Before.not_symm (ab : Before less place a b) : ¬ Before less place b a := fun ba =>
  (ab.2 ba.1).asymm (ba.2 ab.1)

theorem nodup_of_before (h : items.Pairwise (Before less place)) : items.Nodup :=
  h.imp fun ab same => (same ▸ ab).not_symm (same ▸ ab)

/-- There is one way only to put items in order. -/
theorem eq_of_before (perm : items.Perm items') (h : items.Pairwise (Before less place))
    (h' : items'.Pairwise (Before less place)) : items = items' :=
  perm.eq_of_pairwise (fun _ _ _ _ ab ba => absurd ba ab.not_symm) h h'

variable (less place) in
/-- The comparison is coherent and the places of the items grow. -/
structure Ready (items : List α) : Prop where
  coherent : Coherent less
  placed : items.Pairwise fun a b => place a < place b

theorem Ready.sublist (h : Ready less place items) (sub : items'.Sublist items) :
    Ready less place items' :=
  ⟨h.coherent, h.placed.sublist sub⟩

theorem Ready.left (h : Ready less place (items ++ items')) : Ready less place items :=
  h.sublist (List.sublist_append_left _ _)

theorem Ready.right (h : Ready less place (items ++ items')) : Ready less place items' :=
  h.sublist (List.sublist_append_right _ _)

theorem Ready.across (h : Ready less place (items ++ items')) :
    ∀ a ∈ items, ∀ b ∈ items', place a < place b :=
  (List.pairwise_append.mp h.placed).2.2

variable (less place) in
/-- The list has the items of the source, in order under the condition. -/
structure Sorted (condition : Prop) (source sorted : List α) : Prop where
  perm : sorted.Perm source
  ordered : condition → sorted.Pairwise (Before less place)

theorem Sorted.imp {condition condition' : Prop} {source sorted : List α}
    (h : Sorted less place condition source sorted) (weaker : condition' → condition) :
    Sorted less place condition' source sorted :=
  ⟨h.perm, fun holds => h.ordered (weaker holds)⟩

end

/-- An outcome is good, and there is one under the condition. -/
structure Yields {β : Type} (good : β → Prop) (condition : Prop) (outcome : Option β) : Prop where
  each : ∀ result, outcome = some result → good result
  exists_of : condition → ∃ result, outcome = some result

namespace Yields

variable {β γ : Type} {good good' : β → Prop} {condition condition' : Prop} {outcome : Option β}

theorem some {result : β} (h : good result) : Yields good condition (some result) :=
  ⟨fun _ same => Option.some_inj.mp same ▸ h, fun _ => ⟨result, rfl⟩⟩

theorem imp (h : Yields good condition outcome) (good_imp : ∀ result, good result → good' result)
    (weaker : condition' → condition) : Yields good' condition' outcome :=
  ⟨fun result same => good_imp result (h.each result same), fun holds => h.exists_of (weaker holds)⟩

theorem under (h : Yields good condition outcome) (weaker : condition' → condition) :
    Yields good condition' outcome :=
  h.imp (fun _ own => own) weaker

theorem bind {good : γ → Prop} {good' : β → Prop} {first : Option γ} {next : γ → Option β}
    (h : Yields good condition first)
    (then_ : ∀ result, good result → Yields good' condition (next result)) :
    Yields good' condition (first >>= next) where
  each result same := by
    obtain ⟨middle, found, same⟩ := Option.bind_eq_some_iff.mp same
    exact (then_ middle (h.each middle found)).each result same
  exists_of holds := by
    obtain ⟨middle, found⟩ := h.exists_of holds
    obtain ⟨result, same⟩ := (then_ middle (h.each middle found)).exists_of holds
    exact ⟨result, Option.bind_eq_some_iff.mpr ⟨middle, found, same⟩⟩

theorem map {good : γ → Prop} {good' : β → Prop} {first : Option γ} {f : γ → β}
    (h : Yields good condition first) (good_map : ∀ result, good result → good' (f result)) :
    Yields good' condition (first.map f) := by
  rw [Option.map_eq_bind]
  exact h.bind fun result own => .some (good_map result own)

end Yields

/-- The outcome is the items of the source in order, under the condition. -/
def Sorts {α : Type} (less : α → α → Bool) (place : α → Nat) (condition : Prop) (source : List α)
    (outcome : Option (List α)) : Prop :=
  Yields (Sorted less place condition source) condition outcome

theorem Sorts.imp {α : Type} {less : α → α → Bool} {place : α → Nat} {condition condition' : Prop}
    {source : List α} {outcome : Option (List α)} (h : Sorts less place condition source outcome)
    (weaker : condition' → condition) : Sorts less place condition' source outcome :=
  Yields.imp h (fun _ own => own.imp weaker) weaker

end CampusQuery.StableSort
