import CampusQuery.Proofs.StableSort.Runs

/-!
# Sorting by partitions

The pivot is an item of the list (`exists_split`), and a partition leaves out no item (`part_perm`).
If the comparison is coherent, the items that are not less than the pivot come after the others; and
if no item is less than the pivot, those that are level with it come first, as they are
(`level_ordered`). A floor is only asked for the latter: a pivot that is no greater than the floor
has no lesser items (`pivot_le_of_level`).
-/

namespace CampusQuery.StableSort

variable {α : Type} {less : α → α → Bool} {place : α → Nat} {items : List α}

theorem median_lt {a b c bound : Nat} (ha : a < bound) (hb : b < bound) (hc : c < bound) :
    median less items a b c < bound := by
  rw [median]
  split
  · split
    · exact hb
    · exact hc
  · exact ha

/-- A median of medians is not taken from behind the items that it is taken from. -/
theorem medianOfMedians_lt {n a b c bound : Nat} (positive : 0 < n) (ha : a + n ≤ bound)
    (hb : b + n ≤ bound) (hc : c + n ≤ bound) : medianOfMedians less items n a b c < bound := by
  induction n using Nat.strongRecOn generalizing a b c with
  | ind n ih =>
    rw [medianOfMedians]
    split
    · rename_i large
      have around {i : Nat} (hi : i + n ≤ bound) :
          medianOfMedians less items (n / 8) i (i + n / 8 * 4) (i + n / 8 * 7) < bound :=
        ih (n / 8) (by omega) (by omega) (by omega) (by omega) (by omega)
      exact median_lt (around ha) (around hb) (around hc)
    · exact median_lt (by omega) (by omega) (by omega)

variable (less) in
theorem pivotPlace_lt (many : few < items.length) : pivotPlace less items < items.length := by
  rw [few] at many
  exact medianOfMedians_lt (by omega) (by omega) (by omega) (by omega)

variable (less) in
theorem exists_split (many : few < items.length) :
    ∃ split, split? less items = some split ∧
      split.before ++ split.pivot :: split.after = items := by
  have inside := pivotPlace_lt less many
  rw [split?]
  split
  · rename_i empty
    exact absurd (List.drop_eq_nil_iff.mp empty) (Nat.not_le_of_lt inside)
  · rename_i pivot after rest
    exact ⟨_, rfl, by rw [← rest, List.take_append_drop]⟩

namespace Split

variable (split : Split α) (has : α → Bool) (withPivot : Bool)

theorem part_perm : (split.part has withPivot ++ split.part (!has ·) !withPivot).Perm
    (split.before ++ split.pivot :: split.after) := by
  have before := List.filter_append_perm has split.before
  have after := List.filter_append_perm has split.after
  refine .trans ?_ (before.append (after.cons split.pivot))
  classical
  rw [List.perm_iff_count]
  intro x
  cases withPivot <;> simp [part, List.count_cons] <;> omega

theorem part_sublist :
    (split.part has withPivot).Sublist (split.before ++ split.pivot :: split.after) := by
  rw [part, List.append_assoc]
  refine List.filter_sublist.append ?_
  cases withPivot with
  | false => exact List.filter_sublist.cons _
  | true => exact List.filter_sublist.cons_cons _

variable {has withPivot} in
theorem of_mem_part {x : α} (mem : x ∈ split.part has withPivot)
    (own : withPivot = true → has split.pivot = true) : has x = true := by
  rw [part, List.mem_append, List.mem_append, List.mem_filter, List.mem_filter] at mem
  rcases mem with (mem | mem) | mem
  · exact mem.2
  · split at mem
    · exact List.mem_singleton.mp mem ▸ own ‹_›
    · exact absurd mem List.not_mem_nil
  · exact mem.2

theorem mem_part_of_ne {x : α} (mem : x ∈ split.before ++ split.pivot :: split.after)
    (other : x ≠ split.pivot) (hx : has x = true) : x ∈ split.part has withPivot := by
  rw [List.mem_append, List.mem_cons, or_iff_right other] at mem
  rw [part, List.append_assoc, List.mem_append, List.mem_append, List.mem_filter, List.mem_filter]
  exact mem.imp (⟨·, hx⟩) fun mem => .inr ⟨mem, hx⟩

variable {split} {x : α}

theorem less_pivot_of_mem (mem : x ∈ split.part (less · split.pivot) false) :
    less x split.pivot = true :=
  @of_mem_part _ split (less · split.pivot) _ x mem Bool.noConfusion

theorem pivot_less_of_mem (mem : x ∈ split.part (less split.pivot ·) false) :
    less split.pivot x = true :=
  split.of_mem_part mem Bool.noConfusion

theorem le_pivot_of_mem (h : Coherent less) (mem : x ∈ split.part (!less split.pivot ·) true) :
    less split.pivot x = false :=
  Bool.not_eq_true' _ ▸ split.of_mem_part mem fun _ => by simp [h.irrefl]

theorem pivot_le_of_mem (h : Coherent less) (mem : x ∈ split.part (!less · split.pivot) true) :
    less x split.pivot = false :=
  Bool.not_eq_true' _ ▸ split.of_mem_part mem fun _ => by simp [h.irrefl]

end Split

variable (less place) in
/-- Items to be sorted, none of them less than the floor. -/
structure Grounded (floor : Option α) (items : List α) : Prop extends Ready less place items where
  floor_le : ∀ f ∈ floor, ∀ x ∈ items, less x f = false

namespace Grounded

variable {floor : Option α} {split : Split α} {has : α → Bool} {withPivot : Bool}

theorem of_none (h : Ready less place items) : Grounded less place none items := ⟨h, nofun⟩

theorem part (h : Grounded less place floor items)
    (whole : split.before ++ split.pivot :: split.after = items) :
    Grounded less place floor (split.part has withPivot) := by
  have sub := whole ▸ split.part_sublist has withPivot
  exact ⟨h.toReady.sublist sub, fun f hf x hx => h.floor_le f hf x (sub.subset hx)⟩

theorem pivot_le_of_level (h : Grounded less place floor items)
    (whole : split.before ++ split.pivot :: split.after = items)
    (level : (floor.any (!less · split.pivot) ||
      (split.part (less · split.pivot) false).isEmpty) = true) :
    ∀ x ∈ items, less x split.pivot = false := by
  intro x mem
  rcases Bool.or_eq_true_iff.mp level with low | empty
  · obtain ⟨f, found, low⟩ := (Option.any_eq_true _ _).mp low
    exact h.coherent.trans (Bool.not_eq_true' _ ▸ low) (h.floor_le f found x mem)
  · refine Bool.eq_false_iff.mpr fun lesser => ?_
    have other : x ≠ split.pivot := by
      rintro rfl
      exact absurd (lesser.symm.trans (h.coherent.irrefl _)) nofun
    have found := split.mem_part_of_ne (less · split.pivot) false (whole ▸ mem) other lesser
    exact absurd (List.isEmpty_iff.mp empty ▸ found) List.not_mem_nil

/-- If no item is less than the pivot, the items that are not greater are in order as they are. -/
theorem level_ordered (h : Grounded less place floor items)
    (whole : split.before ++ split.pivot :: split.after = items)
    (pivot_le : ∀ x ∈ items, less x split.pivot = false) :
    (split.part (!less split.pivot ·) true).Pairwise (Before less place) := by
  have sub := whole ▸ split.part_sublist (!less split.pivot ·) true
  refine (h.placed.sublist sub).imp_of_mem fun {a b} ha hb earlier => .of_place ?_ earlier
  exact h.coherent.trans (Split.le_pivot_of_mem h.coherent ha) (pivot_le b (sub.subset hb))

end Grounded

theorem Sorted.append {condition : Prop} {source source' left right : List α}
    (hl : Sorted less place condition source left) (hr : Sorted less place condition source' right)
    (whole : (source ++ source').Perm items)
    (below : condition → ∀ a ∈ source, ∀ b ∈ source', less a b = true)
    (h : condition → Coherent less) :
    Sorted less place condition items (left ++ right) where
  perm := (hl.perm.append hr.perm).trans whole
  ordered holds := by
    refine List.pairwise_append.mpr ⟨hl.ordered holds, hr.ordered holds, fun a ha b hb => ?_⟩
    exact (h holds).before_of_less place
      (below holds a (hl.perm.mem_iff.mp ha) b (hr.perm.mem_iff.mp hb))

theorem sorts_partitions? (limit : Nat) (floor : Option α) (items : List α) :
    Sorts less place (Grounded less place floor items) items
      (partitions? less limit floor items) := by
  induction limit generalizing floor items with
  | zero =>
    rw [partitions?]
    split
    · exact (sorts_sortFew? items).imp Grounded.toReady
    · exact (sorts_sortRuns? sorts_sortFew? _ _ items).imp Grounded.toReady
  | succ limit ih =>
    rw [partitions?]
    split
    · exact (sorts_sortFew? items).imp Grounded.toReady
    rename_i many
    obtain ⟨split, found, whole⟩ := exists_split less (Nat.lt_of_not_le many)
    simp only [found, Option.bind_some, Option.bind_eq_bind]
    split
    · rename_i level
      have upper := (ih none (split.part (less split.pivot ·) false)).imp
        fun h : Grounded less place floor items => .of_none (h.part whole).toReady
      refine Yields.bind upper fun sorted own => .some ?_
      have first : Sorted less place (Grounded less place floor items)
          (split.part (!less split.pivot ·) true) (split.part (!less split.pivot ·) true) :=
        ⟨.refl _, fun h => h.level_ordered whole (h.pivot_le_of_level whole level)⟩
      have all := split.part_perm (!less split.pivot ·) true
      simp only [Bool.not_not, Bool.not_true, whole] at all
      refine first.append own all (fun h a ha b hb => ?_) (·.coherent)
      exact h.coherent.less_of_le_of_less (Split.le_pivot_of_mem h.coherent ha)
        (Split.pivot_less_of_mem hb)
    · have upper := (ih (some split.pivot) (split.part (!less · split.pivot) true)).imp
        fun h : Grounded less place floor items => ⟨(h.part whole).toReady, fun f hf x hx => by
          cases hf
          exact Split.pivot_le_of_mem h.coherent hx⟩
      have lower := (ih floor (split.part (less · split.pivot) false)).imp
        fun h : Grounded less place floor items => h.part whole
      refine Yields.bind upper fun above own' => Yields.bind lower fun below own => .some ?_
      have all := split.part_perm (less · split.pivot) false
      refine own.append own' (whole ▸ all) (fun h a ha b hb => ?_) (·.coherent)
      exact h.coherent.less_of_less_of_le (Split.less_pivot_of_mem ha)
        (Split.pivot_le_of_mem h.coherent hb)

theorem sorts_sortByPartitions? (items : List α) :
    Sorts less place (Ready less place items) items (sortByPartitions? less items) :=
  (sorts_partitions? _ none items).imp .of_none

end CampusQuery.StableSort
