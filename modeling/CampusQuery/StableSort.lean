/-!
# Stable sorting

`sort?` sorts a list by a comparison `less`. A short list is sorted by insertion. A longer one is
cut into runs: a stretch that is in order is a run, and so is any other stretch, which is sorted at
once or later, with those beside it, by partitions. Runs are then merged, shorter ones first.

Few items are sorted by a merge from both ends to the middle (`mergeBothEnds?`). If `less` is no
strict weak order, the two ends may take an item twice and leave another one. This is noticed, and
then there is no outcome.
-/

namespace CampusQuery.StableSort

section

variable {α : Type} (less : α → α → Bool)

/-- Inserts an item into a list that is written from its end: the item passes those that it is less
than. -/
def insertBack (x : α) : List α → List α
  | [] => [x]
  | y :: ys => if less x y then y :: insertBack x ys else x :: y :: ys

/-- Inserts items one after another into a list. -/
def insertAll (sorted items : List α) : List α :=
  (items.foldl (fun reversed x => insertBack less x reversed) sorted.reverse).reverse

def pair (a b : α) : α × α := if less b a then (b, a) else (a, b)

/-- Four items of which the least and the greatest are known. -/
def between (least x y greatest : α) : List α :=
  let (x, y) := pair less x y
  [least, x, y, greatest]

/-- Sorts four items by five comparisons: those of two pairs, of the lesser and of the greater items
of the pairs, and of the two items that are then left. -/
def sortFour (a b c d : α) : List α :=
  let (a, b) := pair less a b
  let (c, d) := pair less c d
  if less c a then
    if less d b then between less c a d b else between less c a b d
  else
    if less d b then between less a c d b else between less a b c d

/-- Sorts one half of a list by insertion, the first four items at once if the list is long. -/
def sortHalf (long : Bool) : List α → List α
  | a :: b :: c :: d :: items =>
    if long then insertAll less (sortFour less a b c d) items
    else insertAll less [] (a :: b :: c :: d :: items)
  | items => insertAll less [] items

/-- The first `n` items of a merge, and what is left of both lists. -/
def mergeFirst (le : α → α → Bool) : Nat → List α → List α → List α × List α × List α
  | n + 1, x :: xs, y :: ys =>
    if le x y then
      let (merged, rest) := mergeFirst le n xs (y :: ys)
      (x :: merged, rest)
    else
      let (merged, rest) := mergeFirst le n (x :: xs) ys
      (y :: merged, rest)
  | _, xs, ys => ([], xs, ys)

/-- Merges two lists from both ends, as many items from either end as the left list has. The right
list has as many or one more. What neither end has taken is put between; there is no outcome if both
ends have taken the same item. -/
def mergeBothEnds? (left right : List α) : Option (List α) :=
  let (front, left₁, right₁) := mergeFirst (fun a b => !less b a) left.length left right
  let (back, right₂, left₂) :=
    mergeFirst (fun a b => !less a b) left.length right.reverse left.reverse
  if left.length ≤ left₁.length + left₂.length ∧ right.length ≤ right₁.length + right₂.length then
    some (front ++ left₁.take (left₁.length + left₂.length - left.length) ++
      right₁.take (right₁.length + right₂.length - right.length) ++ back.reverse)
  else none

/-- Sorts few items: two halves, which are then merged. -/
def sortFew? (items : List α) : Option (List α) :=
  if items.length < 2 then some items
  else
    let half := items.length / 2
    let long := 8 ≤ items.length
    mergeBothEnds? less (sortHalf less long (items.take half))
      (sortHalf less long (items.drop half))

/-- How many items count as few. -/
def few : Nat := 32

/-! ## Runs -/

/-- Neighbouring items, and whether they are known to be in order. -/
structure Run (α : Type) where
  items : List α
  sorted : Bool

/-- How many items follow each other as `next` says after the first one. -/
def chain (next : α → α → Bool) : α → List α → Nat
  | _, [] => 0
  | x, y :: ys => if next x y then chain next y ys + 1 else 0

/-- The stretch at the head of a list that is in order, if need be the other way round. Only a
stretch that strictly falls is turned round. -/
def firstStretch : List α → List α
  | x :: y :: items =>
    if less y x then
      ((x :: y :: items).take (chain (fun a b => less b a) x (y :: items) + 1)).reverse
    else (x :: y :: items).take (chain (fun a b => !less b a) x (y :: items) + 1)
  | items => items

/-- The run at the head of a list: a stretch in order if it has at least `good` items; otherwise few
items, which are sorted at once if the sort is `eager`, or `good` items as they are. -/
def firstRun? (eager : Bool) (good : Nat) (items : List α) : Option (Run α) :=
  let stretch := firstStretch less items
  if good ≤ stretch.length then some ⟨stretch, true⟩
  else if eager then (sortFew? less (items.take few)).map (⟨·, true⟩)
  else some ⟨items.take good, false⟩

/-- The runs of a list. -/
def runs? (eager : Bool) (good : Nat) : List α → Option (List (Run α))
  | [] => some []
  | item :: items => do
    let run ← firstRun? less eager good (item :: items)
    let runs ← runs? eager good (items.drop (run.items.length - 1))
    return run :: runs
  termination_by items => items.length

/-- Merges neighbouring lists, from the end where the shorter one is. -/
def merge (left right : List α) : List α :=
  if left.length ≤ right.length then left.merge right fun a b => !less b a
  else (right.reverse.merge left.reverse fun a b => !less a b).reverse

section Merging

/- How items that are in no order are sorted, and how many of them may be sorted at once. -/
variable (sortLoose? : List α → Option (List α)) (room : Nat)

def Run.sort? (run : Run α) : Option (List α) :=
  if run.sorted then some run.items else sortLoose? run.items

/-- Joins neighbouring runs. Runs that are both in no order are only put together, if there is
room. -/
def join? (left right : Run α) : Option (Run α) :=
  if left.items.length + right.items.length ≤ room ∧ !left.sorted ∧ !right.sorted then
    some ⟨left.items ++ right.items, false⟩
  else do
    let left ← left.sort? sortLoose?
    let right ← right.sort? sortLoose?
    return ⟨merge less left right, true⟩

/-- How deep in a balanced tree over `total` items the runs from `left` to `mid` and from `mid` to
`right` come together: the number of leading bits that the two middles have in common. -/
def depth (total left mid right : Nat) : Nat :=
  let scale := (1 <<< 62 + total - 1) / total
  let differing := (scale * (left + mid)) ^^^ (scale * (mid + right))
  63 - differing.log2

/-- Joins a run with those that wait before it as long as they are to be joined at the given depth
or deeper. -/
def joinWaiting? (deep : Nat) (run : Run α) :
    List (Run α × Nat) → Option (Run α × List (Run α × Nat))
  | [] => some (run, [])
  | (left, d) :: waiting =>
    if deep ≤ d then do
      let joined ← join? less sortLoose? room left run
      joinWaiting? deep joined waiting
    else some (run, (left, d) :: waiting)

/-- Joins all runs, of which the first one ends at the place `mid`. A run waits until no later runs
are to be joined before it. -/
def joinAll? (total mid : Nat) (run : Run α) (waiting : List (Run α × Nat)) :
    List (Run α) → Option (Run α)
  | [] => (joinWaiting? less sortLoose? room 0 run waiting).map (·.1)
  | next :: runs => do
    let right := mid + next.items.length
    let deep := depth total (mid - run.items.length) mid right
    let (joined, waiting) ← joinWaiting? less sortLoose? room deep run waiting
    joinAll? total right next ((joined, deep) :: waiting) runs

/-- The length from which on a stretch in order is a run: about the square root of a long list. -/
def goodLength (total : Nat) : Nat :=
  if total ≤ 4096 then min (total - total / 2) 64
  else
    let shift := (1 + (total ||| 1).log2) / 2
    (1 <<< shift + total >>> shift) / 2

/-- Sorts by joining runs. -/
def sortRuns? (eager : Bool) (items : List α) : Option (List α) := do
  match ← runs? less eager (goodLength items.length) items with
  | [] => return []
  | run :: runs =>
    let whole ← joinAll? less sortLoose? room items.length run.items.length run [] runs
    whole.sort? sortLoose?

end Merging

/-! ## Partitions -/

def lessAt (items : List α) (i j : Nat) : Bool :=
  match items[i]?, items[j]? with
  | some x, some y => less x y
  | _, _ => false

/-- The middle one of the items at three places. -/
def median (items : List α) (a b c : Nat) : Nat :=
  let first := lessAt less items a b
  if first = lessAt less items a c then
    if lessAt less items b c = first then b else c
  else a

/-- The median of three places, or of three such medians of as many items behind each of them. -/
def medianOfMedians (items : List α) (n a b c : Nat) : Nat :=
  if 8 ≤ n then
    let around (i : Nat) : Nat := medianOfMedians items (n / 8) i (i + n / 8 * 4) (i + n / 8 * 7)
    median less items (around a) (around b) (around c)
  else median less items a b c
  termination_by n

def pivotPlace (items : List α) : Nat :=
  let n := items.length / 8
  medianOfMedians less items n 0 (n * 4) (n * 7)

/-- Sorts without room for new runs: those that are not long enough are sorted at once. -/
def sortEagerly? (items : List α) : Option (List α) :=
  -- All runs of an eager sort are in order, so nothing is left to be sorted in another way.
  sortRuns? less (sortFew? less) items.length true items

/-- A list that is split at one of its items. -/
structure Split (α : Type) where
  before : List α
  pivot : α
  after : List α

/-- The items with a property, and the pivot if it is to be with them. -/
def Split.part (split : Split α) (has : α → Bool) (withPivot : Bool) : List α :=
  split.before.filter has ++ (if withPivot then [split.pivot] else []) ++ split.after.filter has

/-- The list split at its pivot; an empty list has none. -/
def split? (items : List α) : Option (Split α) :=
  let place := pivotPlace less items
  match items.drop place with
  | [] => none
  | pivot :: after => some ⟨items.take place, pivot, after⟩

/-- Sorts by partitions around pivots, as often as `limit` says. All items are known to be at least
as great as the `floor`. If the pivot is no greater than that, or if no item is less than the pivot,
then the items that are level with it are done. -/
def partitions? : (limit : Nat) → (floor : Option α) → List α → Option (List α)
  | limit, floor, items =>
    if items.length ≤ few then sortFew? less items
    else
      match limit with
      | 0 => sortEagerly? less items
      | limit + 1 => do
        let split ← split? less items
        let lower := split.part (less · split.pivot) false
        if floor.any (!less · split.pivot) || lower.isEmpty then
          let upper ← partitions? limit none (split.part (less split.pivot ·) false)
          return split.part (!less split.pivot ·) true ++ upper
        else
          let upper ← partitions? limit (some split.pivot) (split.part (!less · split.pivot) true)
          let lower ← partitions? limit floor lower
          return lower ++ upper

def sortByPartitions? (items : List α) : Option (List α) :=
  partitions? less (2 * (items.length ||| 1).log2) none items

end

/-- How many items may be sorted by partitions at once. -/
def scratch (total : Nat) : Nat := max (max (total - total / 2) (min total 83333)) 48

/-- Sorts a list. There may be no outcome if `less` is no strict weak order. -/
def sort? {α : Type} (less : α → α → Bool) (items : List α) : Option (List α) :=
  if items.length ≤ 20 then some (insertAll less [] items)
  else
    sortRuns? less (sortByPartitions? less) (scratch items.length) (items.length ≤ 2 * few) items

end CampusQuery.StableSort
