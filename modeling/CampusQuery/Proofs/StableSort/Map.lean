import CampusQuery.StableSort
import Mathlib.Data.List.Basic

/-!
# Sorting images

A sort by the images of items is the sort of the images (`sort?_map`): it looks at items by
comparing them and in no other way.
-/

namespace CampusQuery.StableSort

theorem bind_map {γ δ γ' δ' : Type} {outcome : Option γ} {image : γ → γ'} {image' : δ → δ'}
    {next : γ → Option δ} {next' : γ' → Option δ'}
    (same : ∀ a, next' (image a) = (next a).map image') :
    (outcome.map image >>= next') = (outcome >>= next).map image' := by
  cases outcome with
  | none => rfl
  | some a => exact same a

section

variable {α β : Type} (less : β → β → Bool) (image : α → β)

theorem insertBack_map (x : α) (ys : List α) :
    insertBack less (image x) (ys.map image) =
      (insertBack (fun a b => less (image a) (image b)) x ys).map image := by
  induction ys with
  | nil => rfl
  | cons y ys ih =>
    rw [List.map_cons, insertBack, insertBack, ih]
    split <;> rfl

theorem insertAll_map (sorted items : List α) :
    insertAll less (sorted.map image) (items.map image) =
      (insertAll (fun a b => less (image a) (image b)) sorted items).map image := by
  rw [insertAll, insertAll, ← List.map_reverse, List.map_reverse (l := List.foldl _ _ _)]
  generalize sorted.reverse = reversed
  congr 1
  induction items generalizing reversed with
  | nil => rfl
  | cons x items ih => rw [List.map_cons, List.foldl_cons, List.foldl_cons, insertBack_map, ih]

theorem pair_map (a b : α) :
    pair less (image a) (image b) =
      (pair (fun a b => less (image a) (image b)) a b).map image image := by
  rw [pair, pair]
  split <;> rfl

theorem between_map (least x y greatest : α) :
    between less (image least) (image x) (image y) (image greatest) =
      (between (fun a b => less (image a) (image b)) least x y greatest).map image := by
  rw [between, between, pair_map]
  rfl

theorem sortFour_map (a b c d : α) :
    sortFour less (image a) (image b) (image c) (image d) =
      (sortFour (fun a b => less (image a) (image b)) a b c d).map image := by
  simp only [sortFour, pair_map, Prod.map, between_map]
  split <;> split <;> rfl

theorem sortHalf_map (long : Bool) (items : List α) :
    sortHalf less long (items.map image) =
      (sortHalf (fun a b => less (image a) (image b)) long items).map image := by
  match items with
  | a :: b :: c :: d :: items =>
    cases long with
    | true =>
      have sorted := insertAll_map less image
        (sortFour (fun a b => less (image a) (image b)) a b c d) items
      rw [← sortFour_map] at sorted
      exact sorted
    | false => exact insertAll_map less image [] (a :: b :: c :: d :: items)
  | [] => exact insertAll_map less image [] []
  | [a] => exact insertAll_map less image [] [a]
  | [a, b] => exact insertAll_map less image [] [a, b]
  | [a, b, c] => exact insertAll_map less image [] [a, b, c]

theorem mergeFirst_map (le : β → β → Bool) (n : Nat) (xs ys : List α) :
    mergeFirst le n (xs.map image) (ys.map image) =
      (mergeFirst (fun a b => le (image a) (image b)) n xs ys).map (List.map image)
        (Prod.map (List.map image) (List.map image)) := by
  induction n generalizing xs ys with
  | zero => rfl
  | succ n ih =>
    match xs, ys with
    | [], ys => rfl
    | x :: xs, [] => rfl
    | x :: xs, y :: ys =>
      have left := ih xs (y :: ys)
      have right := ih (x :: xs) ys
      rw [List.map_cons] at left right ⊢
      rw [List.map_cons, mergeFirst, mergeFirst, left, right]
      split <;> rfl

theorem mergeBothEnds?_map (left right : List α) :
    mergeBothEnds? less (left.map image) (right.map image) =
      (mergeBothEnds? (fun a b => less (image a) (image b)) left right).map (List.map image) := by
  simp only [mergeBothEnds?, List.length_map, ← List.map_reverse, mergeFirst_map, Prod.map]
  split <;> simp only [Option.map_some, Option.map_none, List.map_append, List.map_take,
    List.map_reverse]

theorem sortFew?_map (items : List α) :
    sortFew? less (items.map image) =
      (sortFew? (fun a b => less (image a) (image b)) items).map (List.map image) := by
  simp only [sortFew?, List.length_map, ← List.map_take, ← List.map_drop, sortHalf_map,
    mergeBothEnds?_map]
  split <;> rfl

/-! ## Runs -/

def Run.map (run : Run α) : Run β := ⟨run.items.map image, run.sorted⟩

theorem chain_map (next : β → β → Bool) (x : α) (ys : List α) :
    chain next (image x) (ys.map image) = chain (fun a b => next (image a) (image b)) x ys := by
  induction ys generalizing x with
  | nil => rfl
  | cons y ys ih => rw [List.map_cons, chain, chain, ih]

theorem firstStretch_map (items : List α) :
    firstStretch less (items.map image) =
      (firstStretch (fun a b => less (image a) (image b)) items).map image := by
  match items with
  | [] | [_] => rfl
  | x :: y :: items =>
    have chained (next : β → β → Bool) := chain_map image next x (y :: items)
    rw [List.map_cons] at chained
    rw [List.map_cons, List.map_cons, firstStretch, firstStretch, chained, chained]
    split
    · rw [List.map_reverse, List.map_take, List.map_cons, List.map_cons]
    · rw [List.map_take, List.map_cons, List.map_cons]

theorem firstRun?_map (eager : Bool) (good : Nat) (items : List α) :
    firstRun? less eager good (items.map image) =
      (firstRun? (fun a b => less (image a) (image b)) eager good items).map (Run.map image) := by
  simp only [firstRun?, firstStretch_map, List.length_map, ← List.map_take, sortFew?_map]
  split
  · rfl
  split
  · rw [Option.map_map, Option.map_map]
    rfl
  · rfl

theorem runs?_map (eager : Bool) (good : Nat) (items : List α) :
    runs? less eager good (items.map image) =
      (runs? (fun a b => less (image a) (image b)) eager good items).map
        (List.map (Run.map image)) := by
  induction items using runs?.induct with
  | case1 =>
    rw [List.map_nil, runs?, runs?]
    rfl
  | case2 item items ih =>
    have first := firstRun?_map less image eager good (item :: items)
    rw [List.map_cons] at first ⊢
    rw [runs?, runs?, first]
    refine bind_map fun run => ?_
    rw [Run.map, List.length_map, ← List.map_drop, ih run]
    exact bind_map fun runs => rfl

theorem merge_map (left right : List α) :
    merge less (left.map image) (right.map image) =
      (merge (fun a b => less (image a) (image b)) left right).map image := by
  rw [merge, merge, List.length_map, List.length_map]
  split
  · exact (@List.map_merge _ _ image (fun a b => !less (image b) (image a))
      (fun a b => !less b a) _ _ fun _ _ _ _ => rfl).symm
  · rw [List.map_reverse, @List.map_merge _ _ image (fun a b => !less (image a) (image b))
      (fun a b => !less a b) _ _ fun _ _ _ _ => rfl, List.map_reverse, List.map_reverse]

section Merging

variable {sortLoose? : List α → Option (List α)} {sortLoose?' : List β → Option (List β)}
  (same : ∀ items, sortLoose?' (items.map image) = (sortLoose? items).map (List.map image))

include same

theorem Run.sort?_map (run : Run α) :
    (run.map image).sort? sortLoose?' = (run.sort? sortLoose?).map (List.map image) := by
  rw [Run.sort?, Run.sort?, Run.map, same]
  split <;> rfl

theorem join?_map (room : Nat) (left right : Run α) :
    join? less sortLoose?' room (left.map image) (right.map image) =
      (join? (fun a b => less (image a) (image b)) sortLoose? room left right).map
        (Run.map image) := by
  rw [join?, join?, Run.sort?_map image same, Run.sort?_map image same]
  simp only [Run.map, List.length_map]
  split
  · rw [← List.map_append]
    rfl
  · refine bind_map fun left => bind_map fun right => ?_
    rw [merge_map]
    rfl

theorem joinWaiting?_map (room deep : Nat) (run : Run α) (waiting : List (Run α × Nat)) :
    joinWaiting? less sortLoose?' room deep (run.map image)
        (waiting.map (Prod.map (Run.map image) id)) =
      (joinWaiting? (fun a b => less (image a) (image b)) sortLoose? room deep run waiting).map
        (Prod.map (Run.map image) (List.map (Prod.map (Run.map image) id))) := by
  induction waiting generalizing run with
  | nil => rfl
  | cons head waiting ih =>
    obtain ⟨left, d⟩ := head
    rw [List.map_cons, Prod.map, joinWaiting?, joinWaiting?, join?_map less image same]
    dsimp only [id]
    split
    · exact bind_map ih
    · rfl

theorem joinAll?_map (room total mid : Nat) (run : Run α) (waiting : List (Run α × Nat))
    (runs : List (Run α)) :
    joinAll? less sortLoose?' room total mid (run.map image)
        (waiting.map (Prod.map (Run.map image) id)) (runs.map (Run.map image)) =
      (joinAll? (fun a b => less (image a) (image b)) sortLoose? room total mid run waiting
        runs).map (Run.map image) := by
  induction runs generalizing mid run waiting with
  | nil =>
    rw [List.map_nil, joinAll?, joinAll?, joinWaiting?_map less image same, Option.map_map,
      Option.map_map]
    rfl
  | cons next runs ih =>
    rw [List.map_cons, joinAll?, joinAll?, joinWaiting?_map less image same]
    simp only [Run.map, List.length_map]
    exact bind_map fun joined => ih _ next ((joined.1, _) :: joined.2)

theorem sortRuns?_map (room : Nat) (eager : Bool) (items : List α) :
    sortRuns? less sortLoose?' room eager (items.map image) =
      (sortRuns? (fun a b => less (image a) (image b)) sortLoose? room eager items).map
        (List.map image) := by
  rw [sortRuns?, sortRuns?, List.length_map, runs?_map]
  refine bind_map fun runs => ?_
  cases runs with
  | nil => rfl
  | cons run runs =>
    have joined := joinAll?_map less image same room items.length run.items.length run [] runs
    rw [List.map_nil] at joined
    simp only [List.map_cons, Run.map, List.length_map] at joined ⊢
    rw [joined]
    exact bind_map fun whole => Run.sort?_map image same whole

end Merging

/-! ## Partitions -/

theorem lessAt_map (items : List α) (i j : Nat) :
    lessAt less (items.map image) i j =
      lessAt (fun a b => less (image a) (image b)) items i j := by
  rw [lessAt, lessAt, List.getElem?_map, List.getElem?_map]
  cases items[i]? <;> cases items[j]? <;> rfl

theorem median_map (items : List α) (a b c : Nat) :
    median less (items.map image) a b c =
      median (fun a b => less (image a) (image b)) items a b c := by
  simp only [median, lessAt_map]

theorem medianOfMedians_map (items : List α) (n a b c : Nat) :
    medianOfMedians less (items.map image) n a b c =
      medianOfMedians (fun a b => less (image a) (image b)) items n a b c := by
  induction n, a, b, c using medianOfMedians.induct less (items.map image) with
  | case1 n a b c many ih =>
    rw [medianOfMedians, medianOfMedians, if_pos many, if_pos many]
    simp only [ih, median_map]
  | case2 n a b c few =>
    rw [medianOfMedians, medianOfMedians, if_neg few, if_neg few, median_map]

def Split.map (split : Split α) : Split β :=
  ⟨split.before.map image, image split.pivot, split.after.map image⟩

theorem Split.part_map (split : Split α) (has : β → Bool) (withPivot : Bool) :
    (split.map image).part has withPivot =
      (split.part (fun a => has (image a)) withPivot).map image := by
  simp only [Split.part, Split.map, List.filter_map, List.map_append]
  cases withPivot <;> rfl

theorem split?_map (items : List α) :
    split? less (items.map image) =
      (split? (fun a b => less (image a) (image b)) items).map (Split.map image) := by
  simp only [split?, pivotPlace, List.length_map, medianOfMedians_map, ← List.map_drop,
    ← List.map_take]
  generalize medianOfMedians _ items _ _ _ _ = place
  cases items.drop place <;> rfl

theorem sortEagerly?_map (items : List α) :
    sortEagerly? less (items.map image) =
      (sortEagerly? (fun a b => less (image a) (image b)) items).map (List.map image) := by
  rw [sortEagerly?, sortEagerly?, List.length_map]
  exact sortRuns?_map less image (sortFew?_map less image) _ _ items

theorem partitions?_map (limit : Nat) (floor : Option α) (items : List α) :
    partitions? less limit (floor.map image) (items.map image) =
      (partitions? (fun a b => less (image a) (image b)) limit floor items).map
        (List.map image) := by
  induction limit generalizing floor items with
  | zero =>
    rw [partitions?, partitions?, List.length_map, sortFew?_map, sortEagerly?_map]
    split <;> rfl
  | succ limit ih =>
    rw [partitions?, partitions?, List.length_map, sortFew?_map, split?_map]
    split
    · rfl
    refine bind_map fun split => ?_
    have upper := ih none
    have higher := ih (some split.pivot)
    rw [Option.map_none] at upper
    rw [Option.map_some] at higher
    have pivot : (split.map image).pivot = image split.pivot := rfl
    simp only [Split.part_map, List.isEmpty_map, Option.any_map, pivot]
    split
    · rw [upper]
      exact bind_map fun upper => congrArg some List.map_append.symm
    · rw [higher, ih]
      exact bind_map fun upper => bind_map fun lower => congrArg some List.map_append.symm

theorem sort?_map (items : List α) :
    sort? less (items.map image) =
      (sort? (fun a b => less (image a) (image b)) items).map (List.map image) := by
  have loose (items : List α) : sortByPartitions? less (items.map image) =
      (sortByPartitions? (fun a b => less (image a) (image b)) items).map (List.map image) := by
    rw [sortByPartitions?, sortByPartitions?, List.length_map]
    exact partitions?_map less image _ none items
  rw [sort?, sort?, List.length_map, sortRuns?_map less image loose]
  split
  · exact congrArg some (insertAll_map less image [] items)
  · rfl

end

end CampusQuery.StableSort
