import CampusQuery.Proofs.StableSort.Order

/-!
# Sorting few items

Insertion puts an item behind all that are not greater (`insertAll_sorted`), and four items are
sorted by five comparisons (`sortFour_sorted`). Two lists in order have one merge only, from whichever
end it is begun (`merge_back_eq`), so if the comparison is coherent the merge from both ends never
takes an item twice (`sorts_mergeBothEnds?`).
-/

namespace CampusQuery.StableSort

variable {α : Type} {less : α → α → Bool} {place : α → Nat}

theorem insertBack_perm (x : α) (ys : List α) : (insertBack less x ys).Perm (x :: ys) := by
  induction ys with
  | nil => exact .refl _
  | cons y ys ih =>
    rw [insertBack]
    split
    · exact (ih.cons y).trans (.swap x y ys)
    · exact .refl _

theorem insertBack_ordered (h : Coherent less) {x : α} {ys : List α}
    (later : ∀ y ∈ ys, place y < place x)
    (ordered : ys.Pairwise fun a b => Before less place b a) :
    (insertBack less x ys).Pairwise fun a b => Before less place b a := by
  induction ys with
  | nil => exact List.pairwise_singleton _ x
  | cons y ys ih =>
    obtain ⟨first, rest⟩ := List.forall_mem_cons.mp later
    obtain ⟨above, ordered⟩ := List.pairwise_cons.mp ordered
    rw [insertBack]
    split
    · rename_i passes
      refine List.pairwise_cons.mpr ⟨fun z mem => ?_, ih rest ordered⟩
      rcases List.mem_cons.mp ((insertBack_perm x ys).mem_iff.mp mem) with rfl | mem
      · exact h.before_of_less place passes
      · exact above z mem
    · rename_i stops
      have top : Before less place y x := .of_place (Bool.eq_false_iff.mpr stops) first
      refine List.pairwise_cons.mpr ⟨fun z mem => ?_, List.pairwise_cons.mpr ⟨above, ordered⟩⟩
      rcases List.mem_cons.mp mem with rfl | mem
      · exact top
      · exact (above z mem).trans h top

theorem foldl_insertBack_perm (reversed items : List α) :
    (items.foldl (fun reversed x => insertBack less x reversed) reversed).Perm
      (reversed ++ items) := by
  induction items generalizing reversed with
  | nil => exact (List.append_nil _).symm ▸ .refl _
  | cons x items ih =>
    exact (ih _).trans (((insertBack_perm x reversed).append_right items).trans
      List.perm_middle.symm)

theorem foldl_insertBack_ordered (h : Coherent less) {reversed items : List α}
    (later : ∀ y ∈ reversed, ∀ x ∈ items, place y < place x)
    (placed : items.Pairwise fun a b => place a < place b)
    (ordered : reversed.Pairwise fun a b => Before less place b a) :
    (items.foldl (fun reversed x => insertBack less x reversed) reversed).Pairwise
      fun a b => Before less place b a := by
  induction items generalizing reversed with
  | nil => exact ordered
  | cons x items ih =>
    obtain ⟨first, placed⟩ := List.pairwise_cons.mp placed
    refine ih (fun y mem => ?_) placed
      (insertBack_ordered h (fun y mem => later y mem x List.mem_cons_self) ordered)
    rcases List.mem_cons.mp ((insertBack_perm x reversed).mem_iff.mp mem) with rfl | mem
    · exact first
    · exact fun z hz => later y mem z (List.mem_cons_of_mem x hz)

theorem insertAll_sorted {source sorted : List α} (items : List α)
    (h : Sorted less place (Ready less place source) source sorted) :
    Sorted less place (Ready less place (source ++ items)) (source ++ items)
      (insertAll less sorted items) where
  perm := (List.reverse_perm _).trans ((foldl_insertBack_perm _ items).trans
    (((List.reverse_perm sorted).trans h.perm).append_right items))
  ordered ready := List.pairwise_reverse.mpr <|
    foldl_insertBack_ordered ready.coherent
      (fun y mem => ready.across y (h.perm.mem_iff.mp (List.mem_reverse.mp mem)))
      ready.right.placed (List.pairwise_reverse.mpr (h.ordered ready.left))

theorem insertAll_nil_sorted (items : List α) :
    Sorted less place (Ready less place items) items (insertAll less [] items) :=
  @insertAll_sorted _ _ _ [] [] items ⟨.refl _, fun _ => .nil⟩

variable (less) in
theorem pair_perm (a b : α) : [(pair less a b).1, (pair less a b).2].Perm [a, b] := by
  rw [pair]
  split
  · exact .swap a b []
  · exact .refl _

theorem pair_before (h : Coherent less) {a b : α}
    (first : less b a = false → Before less place a b) :
    Before less place (pair less a b).1 (pair less a b).2 := by
  rw [pair]
  split
  · exact h.before_of_less place ‹_›
  · exact first (Bool.eq_false_iff.mpr ‹_›)

theorem between_perm (least x y greatest : α) :
    (between less least x y greatest).Perm [least, x, y, greatest] :=
  ((pair_perm less x y).append_right [greatest]).cons least

theorem between_ordered (h : Coherent less) {least x y greatest : α}
    (above : ∀ z ∈ [x, y], Before less place least z)
    (below : ∀ z ∈ [x, y], Before less place z greatest)
    (first : less y x = false → Before less place x y) :
    (between less least x y greatest).Pairwise (Before less place) := by
  have mem {z : α} (hz : z ∈ [(pair less x y).1, (pair less x y).2]) : z ∈ [x, y] :=
    (pair_perm less x y).mem_iff.mp hz
  have left : (pair less x y).1 ∈ [x, y] := mem List.mem_cons_self
  have right : (pair less x y).2 ∈ [x, y] := mem (List.mem_cons_of_mem _ List.mem_cons_self)
  have outer := (above _ left).trans h (below _ left)
  simp only [between, List.pairwise_cons, List.forall_mem_cons, List.not_mem_nil, false_implies,
    implies_true, and_true, List.Pairwise.nil]
  exact ⟨⟨above _ left, above _ right, outer⟩, ⟨pair_before h first, below _ left⟩, below _ right⟩

theorem sortFour_perm (a b c d : α) : (sortFour less a b c d).Perm [a, b, c, d] := by
  have pairs := (pair_perm less a b).append (pair_perm less c d)
  refine .trans ?_ pairs
  rw [sortFour]
  generalize pair less a b = ab, pair less c d = cd
  obtain ⟨a, b⟩ := ab
  obtain ⟨c, d⟩ := cd
  dsimp only
  have third : (c :: ([a, b] ++ [d])).Perm ([a, b] ++ c :: [d]) := List.perm_middle.symm
  have last : ([c, d] ++ [b]).Perm ([b] ++ [c, d]) := List.perm_append_comm
  split <;> split <;> refine (between_perm _ _ _ _).trans ?_
  · exact (((List.Perm.swap b d []).cons a).cons c).trans third
  · exact third
  · exact last.cons a
  · exact .refl _

theorem sortFour_sorted (a b c d : α) :
    Sorted less place (Ready less place [a, b, c, d]) [a, b, c, d] (sortFour less a b c d) where
  perm := sortFour_perm a b c d
  ordered ready := by
    have h := ready.coherent
    have pairs : Ready less place ([a, b] ++ [c, d]) := ready
    have placed : place a < place b := by simpa using pairs.left.placed
    have placed' : place c < place d := by simpa using pairs.right.placed
    have ab := pair_before h fun ba => .of_place ba placed
    have cd := pair_before h fun dc => .of_place dc placed'
    have earlier : ∀ x ∈ [(pair less a b).1, (pair less a b).2],
        ∀ y ∈ [(pair less c d).1, (pair less c d).2], place x < place y := fun x hx y hy =>
      pairs.across x ((pair_perm less a b).mem_iff.mp hx) y ((pair_perm less c d).mem_iff.mp hy)
    rw [sortFour]
    generalize pair less a b = ab', pair less c d = cd' at *
    obtain ⟨a, b⟩ := ab'
    obtain ⟨c, d⟩ := cd'
    simp only [List.forall_mem_cons, List.not_mem_nil, false_implies, implies_true, and_true]
      at ab cd earlier ⊢
    obtain ⟨⟨ac, ad⟩, bc, bd⟩ := earlier
    split <;> split <;> rename_i ca db
    · have ca := h.before_of_less place ca
      have db := h.before_of_less place db
      exact between_ordered h (by simp [ca, cd]) (by simp [ab, db]) fun da => .of_place da ad
    · have ca := h.before_of_less place ca
      have bd : Before less place b d := .of_place (Bool.eq_false_iff.mpr db) bd
      exact between_ordered h (by simp [ca, ca.trans h ab]) (by simp [ab.trans h bd, bd])
        fun _ => ab
    · have ac : Before less place a c := .of_place (Bool.eq_false_iff.mpr ca) ac
      have db := h.before_of_less place db
      exact between_ordered h (by simp [ac, ac.trans h cd]) (by simp [cd.trans h db, db])
        fun _ => cd
    · have ac : Before less place a c := .of_place (Bool.eq_false_iff.mpr ca) ac
      have bd : Before less place b d := .of_place (Bool.eq_false_iff.mpr db) bd
      exact between_ordered h (by simp [ab, ac]) (by simp [bd, cd]) fun cb => .of_place cb bc

variable (less place) in
theorem sortHalf_sorted (long : Bool) (items : List α) :
    Sorted less place (Ready less place items) items (sortHalf less long items) := by
  match items with
  | a :: b :: c :: d :: items =>
    cases long with
    | true => exact insertAll_sorted items (sortFour_sorted a b c d)
    | false => exact insertAll_nil_sorted _
  | [] | [_] | [_, _] | [_, _, _] => exact insertAll_nil_sorted _

/-! ## Merges -/

theorem pairwise_merge {R : α → α → Prop} (trans : ∀ {a b c}, R a b → R b c → R a c)
    {le : α → α → Bool} {xs ys : List α}
    (agree : ∀ x ∈ xs, ∀ y ∈ ys, if le x y then R x y else R y x) (hx : xs.Pairwise R)
    (hy : ys.Pairwise R) : (xs.merge ys le).Pairwise R := by
  induction xs generalizing ys with
  | nil => simpa using hy
  | cons x xs ihx =>
    induction ys with
    | nil => simpa using hx
    | cons y ys ihy =>
      have own := agree x List.mem_cons_self y List.mem_cons_self
      obtain ⟨firstX, restX⟩ := List.pairwise_cons.mp hx
      obtain ⟨firstY, restY⟩ := List.pairwise_cons.mp hy
      rw [List.cons_merge_cons]
      split
      · rename_i le
        rw [if_pos le] at own
        refine List.pairwise_cons.mpr ⟨fun z mem => ?_,
          ihx (fun x mem => agree x (List.mem_cons_of_mem _ mem)) restX hy⟩
        rcases List.mem_merge.mp mem with mem | mem
        · exact firstX z mem
        · rcases List.mem_cons.mp mem with rfl | mem
          · exact own
          · exact trans own (firstY z mem)
      · rename_i not
        rw [if_neg not] at own
        refine List.pairwise_cons.mpr ⟨fun z mem => ?_,
          ihy (fun x mem y listed => agree x mem y (List.mem_cons_of_mem _ listed)) restY⟩
        rcases List.mem_merge.mp mem with mem | mem
        · rcases List.mem_cons.mp mem with rfl | mem
          · exact own
          · exact trans own (firstX z mem)
        · exact firstY z mem

/-- Two lists in order, the places of which follow each other. -/
structure Adjacent (less : α → α → Bool) (place : α → Nat) (left right : List α) : Prop where
  coherent : Coherent less
  earlier : ∀ a ∈ left, ∀ b ∈ right, place a < place b
  ordered_left : left.Pairwise (Before less place)
  ordered_right : right.Pairwise (Before less place)

theorem Adjacent.of_sorted {source source' left right : List α}
    (hl : Sorted less place (Ready less place source) source left)
    (hr : Sorted less place (Ready less place source') source' right)
    (ready : Ready less place (source ++ source')) : Adjacent less place left right where
  coherent := ready.coherent
  earlier a ha b hb := ready.across a (hl.perm.mem_iff.mp ha) b (hr.perm.mem_iff.mp hb)
  ordered_left := hl.ordered ready.left
  ordered_right := hr.ordered ready.right

theorem merge_back_perm (le : α → α → Bool) (left right : List α) :
    (right.reverse.merge left.reverse le).reverse.Perm (left ++ right) :=
  (List.reverse_perm _).trans <| (List.merge_perm_append le).trans <|
    ((List.reverse_perm right).append (List.reverse_perm left)).trans List.perm_append_comm

section

variable {left right : List α} (h : Adjacent less place left right)

include h

theorem Adjacent.merge_ordered :
    (left.merge right fun a b => !less b a).Pairwise (Before less place) := by
  refine pairwise_merge (R := Before less place) (.trans h.coherent) (fun a ha b hb => ?_)
    h.ordered_left h.ordered_right
  cases ba : less b a with
  | false => exact .of_place ba (h.earlier a ha b hb)
  | true => exact h.coherent.before_of_less place ba

/-- A merge from the other end is the same merge. -/
theorem Adjacent.merge_back_eq :
    (right.reverse.merge left.reverse fun a b => !less a b).reverse =
      left.merge right fun a b => !less b a := by
  have ordered : (right.reverse.merge left.reverse fun a b => !less a b).reverse.Pairwise
      (Before less place) := by
    rw [List.pairwise_reverse]
    refine pairwise_merge (R := fun b a => Before less place a b)
      (fun ab bc => bc.trans h.coherent ab) (fun b hb a ha => ?_)
      (List.pairwise_reverse.mpr h.ordered_right) (List.pairwise_reverse.mpr h.ordered_left)
    rw [List.mem_reverse] at ha hb
    cases ba : less b a with
    | false => exact .of_place ba (h.earlier a ha b hb)
    | true => exact h.coherent.before_of_less place ba
  exact eq_of_before ((merge_back_perm _ left right).trans (List.merge_perm_append _).symm) ordered
    h.merge_ordered

end

/-- The first items of a merge are the first ones of both lists. -/
theorem mergeFirst_spec (le : α → α → Bool) (n : Nat) (xs ys : List α) :
    ∃ merged xs₁ xs' ys₁ ys', mergeFirst le n xs ys = (merged, xs', ys') ∧ xs = xs₁ ++ xs' ∧
      ys = ys₁ ++ ys' ∧ merged.Perm (xs₁ ++ ys₁) ∧
      xs.merge ys le = merged ++ xs'.merge ys' le ∧
      (n ≤ xs.length → n ≤ ys.length → merged.length = n) := by
  induction n generalizing xs ys with
  | zero => exact ⟨[], [], xs, [], ys, rfl, rfl, rfl, .refl _, rfl, fun _ _ => rfl⟩
  | succ n ih =>
    match xs, ys with
    | [], ys => exact ⟨[], [], [], [], ys, rfl, rfl, rfl, .refl _, rfl, fun few => by simp at few⟩
    | x :: xs, [] =>
      exact ⟨[], [], x :: xs, [], [], rfl, rfl, rfl, .refl _, rfl, fun _ few => by simp at few⟩
    | x :: xs, y :: ys =>
      rw [mergeFirst, List.cons_merge_cons]
      split
      · obtain ⟨merged, xs₁, xs', ys₁, ys', run, hx, hy, perm, merge, length⟩ := ih xs (y :: ys)
        refine ⟨x :: merged, x :: xs₁, xs', ys₁, ys', ?_, ?_, hy, perm.cons x, ?_, fun hx hy => ?_⟩
        · rw [run]
        · rw [hx, List.cons_append]
        · rw [merge, List.cons_append]
        · rw [List.length_cons] at hx hy ⊢
          rw [length (by omega) (by rw [List.length_cons]; omega)]
      · obtain ⟨merged, xs₁, xs', ys₁, ys', run, hx, hy, perm, merge, length⟩ := ih (x :: xs) ys
        refine ⟨y :: merged, xs₁, xs', y :: ys₁, ys', ?_, hx, ?_,
          (perm.cons y).trans List.perm_middle.symm, ?_, fun hx hy => ?_⟩
        · rw [run]
        · rw [hy, List.cons_append]
        · rw [merge, List.cons_append]
        · rw [List.length_cons] at hx hy ⊢
          rw [length (by rw [List.length_cons]; omega) (by omega)]

section

variable {taken rest rest' taken' whole : List α} (front : whole = taken ++ rest)
  (back : whole = rest' ++ taken')

include front back

/-- What is taken from both ends, and what is left between. -/
theorem eq_append_of_apart (apart : whole.length ≤ rest.length + rest'.length) :
    whole = taken ++ rest.take (rest.length + rest'.length - whole.length) ++ taken' := by
  rcases List.append_eq_append_iff.mp (front.symm.trans back) with
    ⟨middle, rfl, rfl⟩ | ⟨shared, rfl, rfl⟩
  · have length : (middle ++ taken').length + (taken ++ middle).length - whole.length =
        middle.length := by
      rw [back]
      simp only [List.length_append]
      omega
    rw [length, List.take_left, back]
  · obtain rfl : shared = [] := by
      rw [back] at apart
      simp only [List.length_append] at apart
      exact List.length_eq_zero_iff.mp (by omega)
    rw [back]
    simp [Nat.add_comm]

/-- Both ends have taken the same item. -/
theorem exists_mem_of_not_apart (meet : ¬ whole.length ≤ rest.length + rest'.length) :
    ∃ z ∈ taken, z ∈ taken' := by
  rcases List.append_eq_append_iff.mp (front.symm.trans back) with
    ⟨middle, rfl, rfl⟩ | ⟨shared, rfl, rfl⟩
  · rw [back] at meet
    simp only [List.length_append] at meet
    omega
  · cases shared with
    | nil =>
      rw [back] at meet
      simp only [List.length_append, List.length_nil] at meet
      omega
    | cons z shared =>
      exact ⟨z, List.mem_append_right _ List.mem_cons_self,
        List.mem_append_left _ List.mem_cons_self⟩

end

/-- The items between both ends stand between those that the ends have taken. -/
theorem ends_perm {front back left₁ left₂ left₃ right₁ right₂ right₃ : List α}
    (perm : front.Perm (left₁ ++ right₁)) (perm' : back.Perm (right₃ ++ left₃)) :
    (front ++ left₂ ++ right₂ ++ back).Perm
      (left₁ ++ left₂ ++ left₃ ++ (right₁ ++ right₂ ++ right₃)) := by
  rw [← Multiset.coe_eq_coe] at *
  simp only [← Multiset.coe_add] at *
  rw [perm, perm']
  abel

/-- What a merge has taken from both ends of its lists, and what it has left: of the left list
`left₁` and `left₃` are taken, and `left'` and `left''` are left, and so with the right one. -/
structure Ends (less : α → α → Bool) (left right : List α) where
  (front back rest rest' left₁ left' left'' left₃ right₁ right' right'' right₃ : List α)
  left_front : left = left₁ ++ left'
  left_back : left = left'' ++ left₃
  right_front : right = right₁ ++ right'
  right_back : right = right'' ++ right₃
  perm_front : front.Perm (left₁ ++ right₁)
  perm_back : back.Perm (right₃ ++ left₃)
  merge_front : left.merge right (fun a b => !less b a) = front ++ rest
  merge_back : (right.reverse.merge left.reverse fun a b => !less a b).reverse = rest' ++ back
  lengths : left.length ≤ right.length → front.length = left.length ∧ back.length = left.length

variable (less) in
theorem exists_ends (left right : List α) :
    ∃ ends : Ends less left right, mergeBothEnds? less left right =
      if left.length ≤ ends.left'.length + ends.left''.length ∧
          right.length ≤ ends.right'.length + ends.right''.length then
        some (ends.front ++
          ends.left'.take (ends.left'.length + ends.left''.length - left.length) ++
          ends.right'.take (ends.right'.length + ends.right''.length - right.length) ++ ends.back)
      else none := by
  obtain ⟨front, left₁, left', right₁, right', run, hl, hr, perm, merge, length⟩ :=
    mergeFirst_spec (fun a b => !less b a) left.length left right
  obtain ⟨back, right₃, right'', left₃, left'', run', hr', hl', perm', merge', length'⟩ :=
    mergeFirst_spec (fun a b => !less a b) left.length right.reverse left.reverse
  refine ⟨
    { front, back := back.reverse, rest := _, rest' := _, left₁, left', left'' := left''.reverse,
      left₃ := left₃.reverse, right₁, right', right'' := right''.reverse, right₃ := right₃.reverse
      left_front := hl
      left_back := by rw [← List.reverse_append, ← hl', List.reverse_reverse]
      right_front := hr
      right_back := by rw [← List.reverse_append, ← hr', List.reverse_reverse]
      perm_front := perm
      perm_back := (List.reverse_perm back).trans (perm'.trans
        ((List.reverse_perm right₃).symm.append (List.reverse_perm left₃).symm))
      merge_front := merge
      merge_back := by rw [merge', List.reverse_append]
      lengths := fun short => by
        rw [List.length_reverse]
        exact ⟨length le_rfl short, length' (by simpa using short) (by simp)⟩ }, ?_⟩
  simp only [mergeBothEnds?, run, run', List.length_reverse]

theorem mergeBothEnds?_perm {left right merged : List α}
    (run : mergeBothEnds? less left right = some merged) : merged.Perm (left ++ right) := by
  obtain ⟨ends, outcome⟩ := exists_ends less left right
  rw [outcome, Option.ite_none_right_eq_some, Option.some_inj] at run
  obtain ⟨⟨apart, apart'⟩, rfl⟩ := run
  have whole := eq_append_of_apart ends.left_front ends.left_back apart
  have whole' := eq_append_of_apart ends.right_front ends.right_back apart'
  exact (ends_perm ends.perm_front ends.perm_back).trans
    (.of_eq (congrArg₂ (· ++ ·) whole.symm whole'.symm))

theorem eq_of_perm_of_length_le_one {items items' : List α} (perm : items.Perm items')
    (few : items'.length ≤ 1) : items = items' := by
  match items', few with
  | [], _ => exact List.perm_nil.mp perm
  | [_], _ => exact List.perm_singleton.mp perm

/-- From both ends the two lists are merged as they are from one. -/
theorem Adjacent.mergeBothEnds?_eq {left right : List α} (h : Adjacent less place left right)
    (short : left.length ≤ right.length) (long : right.length ≤ left.length + 1) :
    mergeBothEnds? less left right = some (left.merge right fun a b => !less b a) := by
  obtain ⟨ends, outcome⟩ := exists_ends less left right
  obtain ⟨lengthFront, lengthBack⟩ := ends.lengths short
  have first := ends.merge_front
  have last := h.merge_back_eq ▸ ends.merge_back
  have total := List.length_merge (fun a b => !less b a) left right
  have lengthRest := congrArg List.length first
  have lengthRest' := congrArg List.length last
  rw [List.length_append, total] at lengthRest lengthRest'
  have whole := eq_append_of_apart first last (by omega)
  have distinct := nodup_of_before h.merge_ordered
  rw [whole] at distinct
  -- An item that both ends have taken would come twice in the merge.
  have once {z : α} (hf : z ∈ ends.front) (hb : z ∈ ends.back) : False :=
    List.disjoint_of_nodup_append distinct (List.mem_append_left _ hf) hb
  have apart : left.length ≤ ends.left'.length + ends.left''.length := by
    by_contra meet
    obtain ⟨z, hz, hz'⟩ := exists_mem_of_not_apart ends.left_front ends.left_back meet
    exact once (ends.perm_front.mem_iff.mpr (List.mem_append_left _ hz))
      (ends.perm_back.mem_iff.mpr (List.mem_append_right _ hz'))
  have apart' : right.length ≤ ends.right'.length + ends.right''.length := by
    by_contra meet
    obtain ⟨z, hz, hz'⟩ := exists_mem_of_not_apart ends.right_front ends.right_back meet
    exact once (ends.perm_front.mem_iff.mpr (List.mem_append_right _ hz))
      (ends.perm_back.mem_iff.mpr (List.mem_append_left _ hz'))
  rw [if_pos ⟨apart, apart'⟩] at outcome
  have all := (mergeBothEnds?_perm outcome).trans
    (List.merge_perm_append fun a b => !less b a).symm
  rw [whole, List.append_assoc ends.front, List.append_assoc ends.front,
    List.append_assoc ends.front, List.perm_append_left_iff, List.perm_append_right_iff] at all
  have middle := eq_of_perm_of_length_le_one all (by rw [List.length_take]; omega)
  rw [outcome, List.append_assoc ends.front, middle, ← whole]

theorem sorts_mergeBothEnds? {source source' left right : List α}
    (hl : Sorted less place (Ready less place source) source left)
    (hr : Sorted less place (Ready less place source') source' right)
    (short : left.length ≤ right.length) (long : right.length ≤ left.length + 1) :
    Sorts less place (Ready less place (source ++ source')) (source ++ source')
      (mergeBothEnds? less left right) := by
  have merges (ready : Ready less place (source ++ source')) :=
    (Adjacent.of_sorted hl hr ready).mergeBothEnds?_eq short long
  refine ⟨fun merged run => ⟨(mergeBothEnds?_perm run).trans (hl.perm.append hr.perm),
    fun ready => ?_⟩, fun ready => ⟨_, merges ready⟩⟩
  rw [merges ready, Option.some_inj] at run
  exact run ▸ (Adjacent.of_sorted hl hr ready).merge_ordered

theorem sorts_sortFew? (items : List α) :
    Sorts less place (Ready less place items) items (sortFew? less items) := by
  rw [sortFew?]
  split
  · rename_i few
    refine .some ⟨.refl items, fun _ => ?_⟩
    match items, few with
    | [], _ => exact .nil
    | [_], _ => exact List.pairwise_singleton _ _
  · have left := sortHalf_sorted less place (8 ≤ items.length)
      (items.take (items.length / 2))
    have right := sortHalf_sorted less place (8 ≤ items.length)
      (items.drop (items.length / 2))
    have lengthLeft := left.perm.length_eq
    have lengthRight := right.perm.length_eq
    rw [List.length_take] at lengthLeft
    rw [List.length_drop] at lengthRight
    have merged := sorts_mergeBothEnds? left right (by omega) (by omega)
    rwa [List.take_append_drop] at merged

end CampusQuery.StableSort
