import CampusQuery.Proofs.StableSort.Few

/-!
# Sorting by runs

A run is made of a stretch of the list (`Run.Of`): all of its items, in order if the run is known to
be so, and otherwise as they were. The runs of a list are made of stretches that follow each other
(`yields_runs?`), and a joined run is made of two of them (`yields_join?`). Which runs are joined
first makes no difference (`yields_joinAll?`).
-/

namespace CampusQuery.StableSort

variable {α : Type} {less : α → α → Bool} {place : α → Nat}

variable (less place) in
/-- The run has the items of the source. -/
structure Run.Of (source : List α) (run : Run α) : Prop where
  perm : run.items.Perm source
  ordered : Ready less place source → run.sorted = true → run.items.Pairwise (Before less place)
  loose : run.sorted = false → run.items = source

theorem Run.Of.of_sorted {source sorted : List α}
    (h : Sorted less place (Ready less place source) source sorted) :
    Run.Of less place source ⟨sorted, true⟩ :=
  ⟨h.perm, fun ready _ => h.ordered ready, nofun⟩

/-- A chain is in the order that two items have if they follow each other. -/
theorem pairwise_take_chain {R link : α → α → Prop} (trans : ∀ {a b c}, R a b → R b c → R a c)
    {next : α → α → Bool} (step : ∀ {a b}, link a b → next a b = true → R a b) {x : α} {ys : List α}
    (links : ((x :: ys).take (chain next x ys + 1)).Pairwise link) :
    ((x :: ys).take (chain next x ys + 1)).Pairwise R := by
  induction ys generalizing x with
  | nil => exact List.pairwise_singleton R x
  | cons y ys ih =>
    rw [chain] at links ⊢
    split
    · rename_i follows
      rw [if_pos follows, List.take_succ_cons] at links
      obtain ⟨first, links⟩ := List.pairwise_cons.mp links
      have rest := ih links
      rw [List.take_succ_cons] at rest first
      rw [List.take_succ_cons, List.take_succ_cons]
      have top := step (first y List.mem_cons_self) follows
      refine List.pairwise_cons.mpr ⟨fun z mem => ?_, rest⟩
      rcases List.mem_cons.mp mem with rfl | mem
      · exact top
      · exact trans top ((List.pairwise_cons.mp rest).1 z mem)
    · exact List.pairwise_singleton R x

/-- A head of a list is as long as what is made of it. -/
theorem take_length_of_perm {items head made : List α} (prefix_ : head <+: items)
    (perm : made.Perm head) : items.take made.length = head := by
  rw [perm.length_eq]
  exact (List.prefix_iff_eq_take.mp prefix_).symm

theorem firstStretch_sorted (items : List α) :
    Sorted less place (Ready less place (items.take (firstStretch less items).length))
      (items.take (firstStretch less items).length) (firstStretch less items) := by
  match items with
  | [] => exact ⟨.refl _, fun _ => .nil⟩
  | [x] => exact ⟨.refl _, fun _ => List.pairwise_singleton _ x⟩
  | x :: y :: items =>
    rw [firstStretch]
    split
    · rw [take_length_of_perm (List.take_prefix _ _) (List.reverse_perm _)]
      refine ⟨List.reverse_perm _, fun ready => List.pairwise_reverse.mpr ?_⟩
      exact pairwise_take_chain (fun ab bc => bc.trans ready.coherent ab)
        (fun _ ba => ready.coherent.before_of_less place ba) ready.placed
    · rw [take_length_of_perm (List.take_prefix _ _) (.refl _)]
      refine ⟨.refl _, fun ready => ?_⟩
      exact pairwise_take_chain (.trans ready.coherent)
        (fun earlier ba => .of_place (Bool.not_eq_true' _ ▸ ba) earlier) ready.placed

theorem firstStretch_ne_nil {items : List α} (nonempty : items ≠ []) :
    firstStretch less items ≠ [] := by
  match items with
  | [_] => exact nonempty
  | _ :: _ :: _ =>
    rw [firstStretch]
    split <;> simp

/-- The first run of a list is made of its head. -/
theorem yields_firstRun? (eager : Bool) (good : Nat) {items : List α} (nonempty : items ≠ []) :
    Yields (fun run => run.items ≠ [] ∧ Run.Of less place (items.take run.items.length) run)
      (Ready less place items) (firstRun? less eager good items) := by
  have head (n : Nat) : items.take n <+: items := List.take_prefix n items
  rw [firstRun?]
  split
  · exact .some ⟨firstStretch_ne_nil nonempty, .of_sorted (firstStretch_sorted items)⟩
  rename_i short
  split
  · have sorts := Yields.under (sorts_sortFew? (items.take few))
      fun ready : Ready less place items => ready.sublist (List.take_sublist few items)
    refine sorts.map fun sorted own => ?_
    rw [take_length_of_perm (head few) own.perm]
    refine ⟨fun empty : sorted = [] => ?_, .of_sorted own⟩
    have none : items.take few = [] := (empty ▸ own.perm).nil_eq.symm
    exact (List.take_eq_nil_iff.mp none).elim nofun nonempty
  · have positive : good ≠ 0 := fun zero => short (zero ▸ Nat.zero_le _)
    refine .some ⟨fun empty : items.take good = [] => ?_, ?_⟩
    · exact (List.take_eq_nil_iff.mp empty).elim positive nonempty
    · rw [take_length_of_perm (head good) (.refl _)]
      exact ⟨.refl _, nofun, fun _ => rfl⟩

theorem yields_runs? (eager : Bool) (good : Nat) (items : List α) :
    Yields (fun runs => ∃ sources : List (List α), sources.flatten = items ∧
        List.Forall₂ (Run.Of less place) sources runs)
      (Ready less place items) (runs? less eager good items) := by
  induction items using runs?.induct with
  | case1 =>
    rw [runs?]
    exact .some ⟨[], rfl, .nil⟩
  | case2 item items ih =>
    rw [runs?]
    refine (yields_firstRun? eager good (List.cons_ne_nil item items)).bind fun run own => ?_
    obtain ⟨nonempty, own⟩ := own
    obtain ⟨size, length⟩ := Nat.exists_eq_add_one_of_ne_zero
      (mt List.length_eq_zero_iff.mp nonempty)
    rw [length] at own
    have rest := (ih run).under fun ready : Ready less place (item :: items) =>
      ready.sublist ((List.drop_sublist _ items).trans (List.sublist_cons_self item items))
    refine rest.bind fun runs made => .some ?_
    obtain ⟨sources, whole, each⟩ := made
    refine ⟨_ :: sources, ?_, .cons own each⟩
    rw [List.flatten_cons, whole, length, Nat.add_sub_cancel, List.take_succ_cons, List.cons_append,
      List.take_append_drop]

/-! ## Joined runs -/

theorem merge_sorted {source source' left right : List α}
    (hl : Sorted less place (Ready less place source) source left)
    (hr : Sorted less place (Ready less place source') source' right) :
    Sorted less place (Ready less place (source ++ source')) (source ++ source')
      (merge less left right) where
  perm := by
    refine .trans ?_ (hl.perm.append hr.perm)
    rw [merge]
    split
    · exact List.merge_perm_append _
    · exact merge_back_perm _ left right
  ordered ready := by
    have adjacent := Adjacent.of_sorted hl hr ready
    rw [merge, adjacent.merge_back_eq, ite_self]
    exact adjacent.merge_ordered

section Joining

variable {sortLoose? : List α → Option (List α)}
  (sorts : ∀ items, Sorts less place (Ready less place items) items (sortLoose? items))

include sorts

theorem Run.Of.sorts_sort? {source : List α} {run : Run α} (h : run.Of less place source) :
    Sorts less place (Ready less place source) source (run.sort? sortLoose?) := by
  rw [Run.sort?]
  split
  · rename_i sorted
    exact .some ⟨h.perm, fun ready => h.ordered ready sorted⟩
  · rename_i loose
    rw [h.loose (Bool.eq_false_iff.mpr loose)]
    exact sorts source

/-- Runs that stand next to each other are joined to a run of both stretches. -/
theorem yields_join? (room : Nat) {source source' : List α} {left right : Run α}
    (hl : left.Of less place source) (hr : right.Of less place source') :
    Yields (Run.Of less place (source ++ source')) (Ready less place (source ++ source'))
      (join? less sortLoose? room left right) := by
  rw [join?]
  split
  · rename_i loose
    obtain ⟨-, looseLeft, looseRight⟩ := loose
    rw [Bool.not_eq_true'] at looseLeft looseRight
    rw [hl.loose looseLeft, hr.loose looseRight]
    exact .some ⟨.refl _, nofun, fun _ => rfl⟩
  · have first := Yields.under (hl.sorts_sort? sorts)
      fun ready : Ready less place (source ++ source') => ready.left
    have second := Yields.under (hr.sorts_sort? sorts)
      fun ready : Ready less place (source ++ source') => ready.right
    exact first.bind fun left own => second.bind fun right own' =>
      .some (.of_sorted (merge_sorted own own'))

variable (less place) in
omit sorts in
/-- Runs that wait, the last one first, are made of the stretches of the list before them. -/
inductive Waiting : List α → List (Run α × Nat) → Prop
  | nil : Waiting [] []
  | cons {source source' : List α} {run : Run α} {deep : Nat} {waiting : List (Run α × Nat)}
    (own : run.Of less place source') (before : Waiting source waiting) :
    Waiting (source ++ source') ((run, deep) :: waiting)

/-- Joining a run with those before it leaves the list that they are made of. -/
theorem yields_joinWaiting? (room deep : Nat) {source source' : List α} {run : Run α}
    {waiting : List (Run α × Nat)} (own : run.Of less place source')
    (before : Waiting less place source waiting) :
    Yields (fun joined => ∃ rest rest', rest ++ rest' = source ++ source' ∧
        joined.1.Of less place rest' ∧ Waiting less place rest joined.2 ∧
        (deep = 0 → joined.2 = []))
      (Ready less place (source ++ source'))
      (joinWaiting? less sortLoose? room deep run waiting) := by
  induction before generalizing run source' with
  | nil => exact .some ⟨[], source', rfl, own, .nil, fun _ => rfl⟩
  | @cons source middle left d waiting ownLeft before ih =>
    rw [joinWaiting?]
    split
    · rw [List.append_assoc]
      have joined := (yields_join? sorts room ownLeft own).under
        fun ready : Ready less place (source ++ (middle ++ source')) => ready.right
      exact joined.bind fun run own => ih own
    · rename_i shallow
      refine .some ⟨source ++ middle, source', rfl, own, .cons ownLeft before, ?_⟩
      rintro rfl
      exact absurd (Nat.zero_le d) shallow

/-- All runs are joined to one that is made of the whole list. -/
theorem yields_joinAll? (room total mid : Nat) {source source' : List α} {run : Run α}
    {waiting : List (Run α × Nat)} {sources : List (List α)} {runs : List (Run α)}
    (own : run.Of less place source') (before : Waiting less place source waiting)
    (each : List.Forall₂ (Run.Of less place) sources runs) :
    Yields (Run.Of less place (source ++ source' ++ sources.flatten))
      (Ready less place (source ++ source' ++ sources.flatten))
      (joinAll? less sortLoose? room total mid run waiting runs) := by
  induction each generalizing mid run waiting source source' with
  | nil =>
    rw [joinAll?, List.flatten_nil, List.append_nil]
    refine (yields_joinWaiting? sorts room 0 own before).map fun joined made => ?_
    obtain ⟨rest, rest', same, own, before, all⟩ := made
    rw [all rfl] at before
    cases before
    exact same ▸ own
  | @cons next nextRun sources runs ownNext _ ih =>
    rw [joinAll?]
    have joined (deep : Nat) := (yields_joinWaiting? sorts room deep own before).under
      fun ready : Ready less place (source ++ source' ++ (next :: sources).flatten) => ready.left
    refine (joined _).bind fun joined made => ?_
    obtain ⟨rest, rest', same, own, before, -⟩ := made
    rw [List.flatten_cons, ← List.append_assoc, ← same]
    exact ih _ ownNext (.cons own before)

theorem sorts_sortRuns? (room : Nat) (eager : Bool) (items : List α) :
    Sorts less place (Ready less place items) items
      (sortRuns? less sortLoose? room eager items) := by
  refine (yields_runs? eager (goodLength items.length) items).bind fun runs made => ?_
  obtain ⟨sources, whole, each⟩ := made
  cases each with
  | nil =>
    subst whole
    exact .some ⟨.refl _, fun _ => .nil⟩
  | @cons source run sources runs own each =>
    have joined := yields_joinAll? sorts room items.length run.items.length own .nil each
    rw [List.nil_append, ← List.flatten_cons, whole] at joined
    exact joined.bind fun run own => own.sorts_sort? sorts

end Joining

end CampusQuery.StableSort
