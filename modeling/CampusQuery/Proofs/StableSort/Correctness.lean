import CampusQuery.Proofs.StableSort.Map
import CampusQuery.Proofs.StableSort.Partitions

/-!
# The sort is the stable sort

Whatever the comparison is, a sorted list has the items of the list (`sort?_perm`). If it is coherent
on these items, there is a sorted list, and it is the one that the library's stable sort gives
(`sort?_eq`): the items are numbered by their places, and then there is one sorted list only.
-/

namespace CampusQuery.StableSort

variable {α : Type} {less : α → α → Bool} {items : List α}

theorem sorts_sort? (place : α → Nat) (items : List α) :
    Sorts less place (Ready less place items) items (sort? less items) := by
  rw [sort?]
  split
  · exact .some (insertAll_nil_sorted items)
  · exact sorts_sortRuns? sorts_sortByPartitions? _ _ items

theorem sort?_perm {sorted : List α} (run : sort? less items = some sorted) : sorted.Perm items :=
  ((sorts_sort? (fun _ => 0) items).each sorted run).perm

theorem Before.zipIdxLE {a b : α × Nat} (h : Before (fun a b => less a.1 b.1) Prod.snd a b) :
    List.zipIdxLE (fun a b => !less b a) a b = true := by
  have le : less b.1 a.1 = false := h.1
  rw [List.zipIdxLE, le]
  cases level : less a.1 b.1 with
  | true => rfl
  | false => exact decide_eq_true (h.2 level).le

theorem eq_of_zipIdxLE {le : α → α → Bool} {a b : α × Nat} (ha : a ∈ items.zipIdx)
    (hb : b ∈ items.zipIdx) (ab : List.zipIdxLE le a b = true) (ba : List.zipIdxLE le b a = true) :
    a = b := by
  have same : a.2 = b.2 := by
    cases first : le a.1 b.1 <;> cases second : le b.1 a.1 <;>
      simp only [List.zipIdxLE, first, second, Bool.false_eq_true, if_true, if_false,
        decide_eq_true_iff] at ab ba
    exact Nat.le_antisymm ab ba
  rw [List.mem_zipIdx_iff_getElem?] at ha hb
  rw [same, hb, Option.some_inj] at ha
  exact Prod.ext ha.symm same

theorem Coherent.total (h : Coherent less) (a b : α) : (!less b a || !less a b) = true := by
  cases ba : less b a with
  | false => rfl
  | true => rw [h.asymm ba, Bool.not_false, Bool.or_true]

/-- Numbered items have one sorted list, which the library's sort gives as well. -/
theorem sort?_eq_of_coherent (h : Coherent less) (items : List α) :
    sort? less items = some (items.mergeSort fun a b => !less b a) := by
  let le (a b : α) : Bool := !less b a
  have ready : Ready (fun a b => less a.1 b.1) Prod.snd items.zipIdx := by
    refine ⟨⟨h.asymm, h.trans⟩, List.pairwise_map.mp ?_⟩
    rw [List.zipIdx_map_snd]
    exact List.pairwise_lt_range'
  obtain ⟨sorted, run⟩ := (sorts_sort? Prod.snd items.zipIdx).exists_of ready
  obtain ⟨perm, ordered⟩ := (sorts_sort? Prod.snd items.zipIdx).each sorted run
  have le_trans (a b c : α) (ab : le a b = true) (bc : le b c = true) : le a c = true := by
    rw [Bool.not_eq_true'] at *
    exact h.trans ab bc
  have same : sorted = items.zipIdx.mergeSort (List.zipIdxLE le) := by
    refine List.Perm.eq_of_pairwise (fun a b ha hb => ?_) ((ordered ready).imp Before.zipIdxLE)
      (List.pairwise_mergeSort (List.zipIdxLE_trans le_trans)
        (List.zipIdxLE_total fun a b => h.total a b) _)
      (perm.trans (List.mergeSort_perm _ _).symm)
    exact eq_of_zipIdxLE (perm.mem_iff.mp ha) ((List.mergeSort_perm _ _).mem_iff.mp hb)
  have image := sort?_map less Prod.fst items.zipIdx
  rwa [List.zipIdx_map_fst, run, same, Option.map_some, List.mergeSort_zipIdx] at image

/-- A comparison that is coherent on the items sorts them stably. -/
theorem sort?_eq (h : Coherent fun a b : {x // x ∈ items} => less a b) :
    sort? less items = some (items.mergeSort fun a b => !less b a) := by
  have image := sort?_map less Subtype.val items.attach
  have same := List.map_mergeSort (f := Subtype.val) (l := items.attach)
    (s := fun a b => !less b a) fun _ _ _ _ => rfl
  rwa [sort?_eq_of_coherent h, Option.map_some, same, List.attach_map_subtype_val] at image

end CampusQuery.StableSort
