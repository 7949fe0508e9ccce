import CampusQuery.Proofs.Execution.StableSort

/-!
# Sorting pass by pass

There is one stable way only to sort rows (`Order.Sorts.unique`), so whatever keeps all rows, puts
them in order and leaves level ones as they were is what sorting does. A pass by the first key over
rows that are sorted by the later ones does so (`Order.Sorts.cons`): of two rows that are level under
the first key, the one that the later keys put first stays there. So do the rows sorted upwards from
the end to the beginning, read backwards, for sorting downwards (`Order.Sorts.reverse`).

`sortRows_passes` is that sorting by many keys is sorting by each of them alone, the last one first,
and what sorting downwards has to do with sorting upwards.
-/

namespace CampusQuery

/-- Two ordered lists of the same items are the same if they have level items in the same order. -/
theorem eq_of_filter_level {α : Type} {order : α → α → Ordering} {items others : List α}
    (perm : items.Perm others)
    (swap : ∀ a b, order b a = (order a b).swap)
    (ascending : items.Pairwise fun a b => order a b ≠ .gt)
    (ascending' : others.Pairwise fun a b => order a b ≠ .gt)
    (level : ∀ a ∈ items, items.filter (order a · = .eq) = others.filter (order a · = .eq)) :
    items = others := by
  induction items generalizing others with
  | nil => exact perm.nil_eq
  | cons item items ih =>
    obtain ⟨other, rest, rfl⟩ : ∃ other rest, others = other :: rest :=
      List.exists_cons_of_ne_nil fun none => List.cons_ne_nil _ _ (perm.trans (none ▸ .nil)).eq_nil
    obtain ⟨least, later⟩ := List.pairwise_cons.mp ascending
    obtain ⟨least', later'⟩ := List.pairwise_cons.mp ascending'
    have self : order item item = .eq := Ordering.eq_eq_of_eq_swap (swap item item)
    have mem : item ∈ other :: rest := perm.mem_iff.mp List.mem_cons_self
    have mem' : other ∈ item :: items := perm.mem_iff.mpr List.mem_cons_self
    -- Neither of the two comes after the other one.
    have between : order item other = .eq := by
      rcases List.mem_cons.mp mem with rfl | tail
      · exact self
      rcases List.mem_cons.mp mem' with rfl | tail'
      · exact self
      have before := least other tail'
      have after := least' item tail
      rw [swap item other] at after
      cases h : order item other with
      | eq => rfl
      | gt => exact absurd h before
      | lt => exact absurd (congrArg Ordering.swap h) after
    have heads := level item List.mem_cons_self
    simp only [List.filter_cons, self, between, decide_true, ite_true, List.cons.injEq] at heads
    obtain rfl := heads.1
    refine congrArg (item :: ·) (ih perm.cons_inv later later' fun a ha => ?_)
    have tails := level a (List.mem_cons_of_mem _ ha)
    rw [List.filter_cons, List.filter_cons] at tails
    split at tails
    · exact (List.cons.inj tails).2
    · exact tails

theorem Sortable.mono {cells cells' : List Cell} (h : Sortable cells)
    (sub : ∀ cell ∈ cells', cell ∈ cells) : Sortable cells' := by
  cases h with
  | texts each => exact .texts fun cell mem => each cell (sub cell mem)
  | integers each => exact .integers fun cell mem => each cell (sub cell mem)
  | numbers each small =>
    exact .numbers (fun cell mem => each cell (sub cell mem)) fun n mem => small n (sub _ mem)

theorem Sortable.perm {key : Column} {rows rows' : List WorkingRow}
    (h : Sortable (key.cells rows)) (perm : rows'.Perm rows) : Sortable (key.cells rows') :=
  h.mono fun _ mem => (perm.filterMap _).mem_iff.mp mem

namespace Order

variable {direction : Direction} {key : Column} {keys : List Column}
  {rows sorted sorted' : List WorkingRow}

theorem compareRows_cons (a b : WorkingRow) :
    compareRows ⟨direction, key :: keys⟩ a b =
      (compareRows ⟨direction, [key]⟩ a b).then (compareRows ⟨direction, keys⟩ a b) := by
  have single : compareRows ⟨direction, [key]⟩ a b = compareBy direction key a b :=
    Ordering.then_eq
  rw [single]
  rfl

theorem compareRows_cons_eq (a b : WorkingRow) :
    compareRows ⟨direction, key :: keys⟩ a b = .eq ↔
      compareRows ⟨direction, [key]⟩ a b = .eq ∧ compareRows ⟨direction, keys⟩ a b = .eq := by
  rw [compareRows_cons, Ordering.then_eq_eq]

theorem compareRows_down (a b : WorkingRow) :
    compareRows ⟨.down, keys⟩ a b = (compareRows ⟨.up, keys⟩ a b).swap := by
  simp only [compareRows]
  induction keys with
  | nil => rfl
  | cons key keys ih =>
    rw [List.foldr_cons, List.foldr_cons, Ordering.swap_then, ih]
    rfl

theorem compareRows_down_eq (a b : WorkingRow) :
    compareRows ⟨.down, keys⟩ a b = .eq ↔ compareRows ⟨.up, keys⟩ a b = .eq := by
  rw [compareRows_down, Ordering.swap_eq_eq]

/-! ## Passes -/

/-- There is one way only to sort rows. -/
theorem Sorts.unique {order : Order} (h : order.Sorts rows sorted) (h' : order.Sorts rows sorted') :
    sorted = sorted' := by
  refine eq_of_filter_level (h.perm.trans h'.perm.symm) order.compareRows_swap h.ascending
    h'.ascending fun a ha => ?_
  have source : a ∈ rows := h.perm.mem_iff.mp ha
  exact (h.stable a source).trans (h'.stable a source).symm

/-- Without keys all rows are level. -/
theorem Sorts.nil (rows : List WorkingRow) : Sorts ⟨direction, []⟩ rows rows where
  perm := .refl rows
  ascending := List.pairwise_of_forall fun _ _ => nofun
  stable _ _ := rfl

/-- A pass by a key over rows that are sorted by later ones. -/
theorem Sorts.cons (later : Sorts ⟨direction, keys⟩ rows sorted)
    (pass : Sorts ⟨direction, [key]⟩ sorted sorted') :
    Sorts ⟨direction, key :: keys⟩ rows sorted' where
  perm := pass.perm.trans later.perm
  ascending := by
    refine List.pairwise_iff_forall_sublist.mpr fun {a b} pair => ?_
    rw [compareRows_cons]
    have mem : a ∈ sorted := pass.perm.mem_iff.mp (pair.subset List.mem_cons_self)
    cases first : compareRows ⟨direction, [key]⟩ a b with
    | lt => nofun
    | gt => exact absurd first (List.pairwise_iff_forall_sublist.mp pass.ascending pair)
    | eq =>
      -- Level rows are as the later keys have left them.
      have self := compareRows_self ⟨direction, [key]⟩ a
      have kept := pair.filter (compareRows ⟨direction, [key]⟩ a · = .eq)
      rw [pass.stable a mem] at kept
      simp only [List.filter_cons, self, first, decide_true, ite_true, List.filter_nil] at kept
      exact List.pairwise_iff_forall_sublist.mp later.ascending (kept.trans List.filter_sublist)
  stable row mem := by
    have level (list : List WorkingRow) :
        list.filter (compareRows ⟨direction, key :: keys⟩ row · = .eq) =
          (list.filter (compareRows ⟨direction, [key]⟩ row · = .eq)).filter
            (compareRows ⟨direction, keys⟩ row · = .eq) := by
      rw [List.filter_filter]
      refine List.filter_congr fun other _ => ?_
      rw [← Bool.decide_and, decide_eq_decide, compareRows_cons_eq, and_comm]
    have mem' : row ∈ sorted := later.perm.mem_iff.mpr mem
    rw [level, level, pass.stable row mem', List.filter_comm, later.stable row mem, List.filter_comm]

/-- Rows sorted upwards from the end are, read backwards, sorted downwards. -/
theorem Sorts.reverse (h : Sorts ⟨.up, keys⟩ rows.reverse sorted) :
    Sorts ⟨.down, keys⟩ rows sorted.reverse where
  perm := (List.reverse_perm sorted).trans (h.perm.trans (List.reverse_perm rows))
  ascending := by
    rw [List.pairwise_reverse]
    refine h.ascending.imp fun {a b} before => ?_
    rwa [compareRows_down, compareRows_swap _ a b, Ordering.swap_swap]
  stable row mem := by
    have level := h.stable row (List.mem_reverse.mpr mem)
    simp only [compareRows_down_eq]
    rw [List.filter_reverse, level, List.filter_reverse, List.reverse_reverse]

/-- Each key in turn, the last one first. -/
theorem exists_sorts_foldrM (sortable : ∀ key ∈ keys, Sortable (key.cells rows)) :
    ∃ sorted, keys.foldrM (fun key rows => sortRows? (some ⟨direction, [key]⟩) rows) rows =
      some sorted ∧ Sorts ⟨direction, keys⟩ rows sorted := by
  induction keys with
  | nil => exact ⟨rows, rfl, .nil rows⟩
  | cons key keys ih =>
    obtain ⟨first, rest⟩ := List.forall_mem_cons.mp sortable
    obtain ⟨sorted, passes, later⟩ := ih rest
    obtain ⟨sorted', pass, single⟩ := @exists_sorts ⟨direction, [key]⟩ sorted
      (List.forall_mem_singleton.mpr (first.perm later.perm))
    refine ⟨sorted', ?_, .cons later single⟩
    rw [List.foldrM_cons, passes]
    exact pass

end Order

/-- Sorting by many keys is sorting by each of them alone in the same direction, from the last key to
the first, and sorting downwards is sorting upwards what comes in reverse and reversing the
outcome. -/
theorem sortRows_passes (direction : Direction) (keys : List Column) (rows : List WorkingRow)
    (sortable : ∀ key ∈ keys, Sortable (key.cells rows)) :
    (∃ sorted, sortRows? (some ⟨direction, keys⟩) rows = some sorted ∧
      keys.foldrM (fun key rows => sortRows? (some ⟨direction, [key]⟩) rows) rows = some sorted) ∧
    ∃ sorted, sortRows? (some ⟨.up, keys⟩) rows.reverse = some sorted ∧
      sortRows? (some ⟨.down, keys⟩) rows = some sorted.reverse := by
  have reversed : ∀ key ∈ keys, Sortable (key.cells rows.reverse) :=
    fun key mem => (sortable key mem).perm (List.reverse_perm rows)
  obtain ⟨sorted, once, sorts⟩ := @Order.exists_sorts ⟨direction, keys⟩ rows sortable
  obtain ⟨passed, passes, sorts'⟩ := Order.exists_sorts_foldrM sortable
  obtain ⟨up, upwards, ascends⟩ := @Order.exists_sorts ⟨.up, keys⟩ rows.reverse reversed
  obtain ⟨down, downwards, descends⟩ := @Order.exists_sorts ⟨.down, keys⟩ rows sortable
  refine ⟨⟨sorted, once, ?_⟩, up, upwards, ?_⟩
  · rw [passes, sorts'.unique sorts]
  · rw [sortRows?, downwards, descends.unique ascends.reverse]

theorem sortRows_passes_averages :
    (∀ key ∈ [Column.field "avg", .field "dept"], Sortable (key.cells averages)) ∧
      (∃ sorted, sortRows? (some ⟨.down, [.field "avg", .field "dept"]⟩) averages = some sorted ∧
        [Column.field "avg", .field "dept"].foldrM
          (fun key rows => sortRows? (some ⟨.down, [key]⟩) rows) averages = some sorted) ∧
      ∃ sorted,
        sortRows? (some ⟨.up, [.field "avg", .field "dept"]⟩) averages.reverse = some sorted ∧
        sortRows? (some ⟨.down, [.field "avg", .field "dept"]⟩) averages = some sorted.reverse :=
  ⟨sortable_averages, sortRows_passes .down [.field "avg", .field "dept"] averages sortable_averages⟩

end CampusQuery
