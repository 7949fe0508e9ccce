import Mathlib

/-!
# Lists without repetitions

`eraseDups` keeps the first of equal items. `eraseDups_concat` is its step for lists that are built
from the left: an item that comes last is kept exactly if it is new. What is left has no repetitions
(`nodup_eraseDups`), and as many items as there are different ones (`length_eraseDups`); in what
order these come is all that the order of the list decides (`eraseDups_perm`). It makes no
difference whether a list is filtered before or afterwards (`eraseDups_filter`), nor by which images
of the items it is told which of them repeat earlier ones (`map_eraseDups_congr`).

Where no two items have the same key, none before an item has its key (`not_mem_of_nodup`), the
first one with a key is the only one (`find?_eq_some_of_mem`), and to take it out is to keep the
others (`eraseP_eq_filter`).

Items that are put together by their keys are the items again, each as often as it was there
(`flatten_filter_perm`).
-/

namespace CampusQuery

section Repetitions

variable {α : Type}

theorem eraseDups_concat [BEq α] [LawfulBEq α] (items : List α) (item : α) :
    (items ++ [item]).eraseDups =
      if item ∈ items then items.eraseDups else items.eraseDups ++ [item] := by
  rw [List.eraseDups_append, List.removeAll]
  split
  · rename_i old
    simp [old]
  · rename_i fresh
    simp [fresh, List.eraseDups_cons]

theorem nodup_eraseDups [BEq α] [LawfulBEq α] (items : List α) : items.eraseDups.Nodup := by
  induction items using List.reverseRecOn with
  | nil => exact List.nodup_nil
  | append_singleton items item ih =>
    rw [eraseDups_concat]
    split
    · exact ih
    · rename_i fresh
      have new : item ∉ items.eraseDups := mt List.mem_eraseDups.mp fresh
      exact List.concat_eq_append ▸ ih.concat new

theorem eraseDups_filter [BEq α] [LawfulBEq α] (p : α → Bool) (items : List α) :
    (items.filter p).eraseDups = items.eraseDups.filter p := by
  induction items using List.reverseRecOn with
  | nil => rfl
  | append_singleton items item ih =>
    rw [List.filter_append, eraseDups_concat]
    cases kept : p item with
    | true =>
      rw [List.filter_cons_of_pos kept, List.filter_nil, eraseDups_concat, ih]
      by_cases old : item ∈ items <;> simp [old, kept]
    | false =>
      rw [List.filter_cons_of_neg (by simp [kept]), List.filter_nil, List.append_nil, ih]
      by_cases old : item ∈ items <;> simp [old, kept]

/-- Images under which the same items agree leave the same items over. -/
theorem map_eraseDups_congr {β γ δ : Type} [BEq β] [LawfulBEq β] [BEq γ] [LawfulBEq γ]
    {f : α → β} {g : α → γ} (same : ∀ a b, f a = f b ↔ g a = g b) {left : β → δ} {right : γ → δ}
    {items : List α} (agree : ∀ item ∈ items, left (f item) = right (g item)) :
    (items.map f).eraseDups.map left = (items.map g).eraseDups.map right := by
  induction items using List.reverseRecOn with
  | nil => rfl
  | append_singleton items item ih =>
    have before := ih fun other mem => agree other (List.mem_append_left _ mem)
    have last := agree item (List.mem_append_right _ List.mem_cons_self)
    have old : f item ∈ items.map f ↔ g item ∈ items.map g := by
      simp only [List.mem_map, same]
    rw [List.map_append, List.map_append, List.map_singleton, List.map_singleton,
      eraseDups_concat, eraseDups_concat, if_congr old rfl rfl]
    split
    · exact before
    · rw [List.map_append, List.map_append, before, List.map_singleton, List.map_singleton, last]

theorem eraseDups_perm [BEq α] [LawfulBEq α] {items items' : List α} (perm : items.Perm items') :
    items.eraseDups.Perm items'.eraseDups := by
  refine (List.perm_ext_iff_of_nodup (nodup_eraseDups items) (nodup_eraseDups items')).mpr ?_
  intro item
  rw [List.mem_eraseDups, List.mem_eraseDups, perm.mem_iff]

theorem length_eraseDups [BEq α] [LawfulBEq α] [DecidableEq α] (items : List α) :
    items.eraseDups.length = items.toFinset.card := by
  induction items using List.reverseRecOn with
  | nil => rfl
  | append_singleton items item ih =>
    rw [eraseDups_concat, List.toFinset_append, List.toFinset_cons, List.toFinset_nil]
    split
    · rename_i old
      rw [ih, Finset.union_eq_left.mpr (by simpa using old)]
    · rename_i fresh
      rw [List.length_append, ih, Finset.card_union_of_disjoint (by simpa using fresh)]
      rfl

/-- How many of the items have different images depends only on which images are the same. -/
theorem card_image_congr {β γ : Type} [DecidableEq β] [DecidableEq γ] {f : α → β} {g : α → γ}
    (same : ∀ a b, f a = f b ↔ g a = g b) (items : List α) :
    (items.map f).toFinset.card = (items.map g).toFinset.card := by
  have shared : (items.map f).eraseDups.map (fun _ => ()) =
      (items.map g).eraseDups.map (fun _ => ()) :=
    map_eraseDups_congr same fun _ _ => rfl
  have lengths := congrArg List.length shared
  rwa [List.length_map, List.length_map, length_eraseDups, length_eraseDups] at lengths

end Repetitions

theorem not_mem_of_nodup {α β : Type} {key : α → β} {before after : List α} {item : α}
    (nodup : ((before ++ item :: after).map key).Nodup) : key item ∉ before.map key := by
  rw [List.map_append, List.map_cons, List.nodup_middle] at nodup
  exact fun old => (List.nodup_cons.mp nodup).1 (List.mem_append_left _ old)

section Keys

variable {α β : Type} [DecidableEq β] {items : List α} {key : α → β}
  (nodup : (items.map key).Nodup)

include nodup

theorem find?_eq_some_of_mem {item : α} (mem : item ∈ items) :
    items.find? (key · = key item) = some item := by
  cases found : items.find? (key · = key item) with
  | none => exact absurd (decide_eq_true rfl) (List.find?_eq_none.mp found item mem)
  | some other =>
    have same : key other = key item := by simpa using List.find?_some found
    rw [List.inj_on_of_nodup_map nodup (List.mem_of_find?_eq_some found) mem same]

theorem eraseP_eq_filter (k : β) : items.eraseP (key · = k) = items.filter (key · ≠ k) := by
  induction items with
  | nil => rfl
  | cons item items ih =>
    obtain ⟨fresh, rest⟩ := List.nodup_cons.mp nodup
    by_cases same : key item = k
    · have others : ∀ other ∈ items, key other ≠ k := fun other mem h =>
        fresh (List.mem_map.mpr ⟨other, mem, h.trans same.symm⟩)
      rw [List.eraseP_cons_of_pos (by simpa using same),
        List.filter_cons_of_neg (by simpa using same)]
      exact (List.filter_eq_self.mpr (by simpa using others)).symm
    · rw [List.eraseP_cons_of_neg (by simpa using same),
        List.filter_cons_of_pos (by simpa using same), ih rest]

end Keys

/-- Put together by their keys, the items are all there. -/
theorem flatten_filter_perm {α β : Type} [DecidableEq β] {key : α → β} {keys : List β}
    (nodup : keys.Nodup) {items : List α} (covered : ∀ item ∈ items, key item ∈ keys) :
    (keys.map fun k => items.filter (key · = k)).flatten.Perm items := by
  induction keys generalizing items with
  | nil =>
    obtain rfl : items = [] := List.eq_nil_iff_forall_not_mem.mpr fun item mem =>
      List.not_mem_nil (covered item mem)
    exact .nil
  | cons k keys ih =>
    obtain ⟨fresh, rest⟩ := List.nodup_cons.mp nodup
    have later : ∀ item ∈ items.filter (fun item => !decide (key item = k)), key item ∈ keys := by
      intro item mem
      obtain ⟨mem, other⟩ := List.mem_filter.mp mem
      exact (List.mem_cons.mp (covered item mem)).resolve_left (by simpa using other)
    have same : (keys.map fun l => items.filter (key · = l)) =
        keys.map fun l =>
          (items.filter (fun item => !decide (key item = k))).filter (key · = l) := by
      refine List.map_congr_left fun l mem => ?_
      rw [List.filter_filter]
      refine List.filter_congr fun item _ => ?_
      by_cases is : key item = l
      · simp [is, ne_of_mem_of_not_mem mem fresh]
      · simp [is]
    rw [List.map_cons, List.flatten_cons, same]
    exact ((ih rest later).append_left _).trans (List.filter_append_perm (key · = k) items)

end CampusQuery
