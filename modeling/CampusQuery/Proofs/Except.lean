import Mathlib

/-!
# Chains that succeed

A chain of steps in `Except` has a result exactly if every step has one:

* `bind_eq_ok`, `pure_eq_ok`: one step and the rest of the chain, which goes on from a known result
  (`ok_bind`) and ends with an error (`error_bind`);
* `mapM_eq_ok`: a step for each item of a list, whose results are related to the items one by one;
* `optionMapM_eq_ok`: a step for what may be absent.

Two chains are the same if they go on in the same way from every result (`bind_congr_ok`), and a
chain with other words for its errors is the chain of its steps with these words (`mapError_bind`).
A step fails exactly for the given reasons if each of them makes it fail, and there is one of them
whenever the step has no result (`eq_error_iff`).

`exists_forall₂` gives the results of such a list of steps at once, `exists_map_forall₂` those with
given images, and `exists_of_mem_right` the item that a result comes from.
-/

namespace CampusQuery

variable {ε α β : Type}

theorem ok_bind (a : α) (f : α → Except ε β) : Except.ok a >>= f = f a := rfl

theorem error_bind (error : ε) (f : α → Except ε β) :
    Except.error error >>= f = .error error := rfl

theorem bind_eq_ok {x : Except ε α} {f : α → Except ε β} {b : β} :
    x >>= f = .ok b ↔ ∃ a, x = .ok a ∧ f a = .ok b := by
  cases x <;> simp [bind, Except.bind]

theorem pure_eq_ok {a b : α} : (pure a : Except ε α) = .ok b ↔ a = b := by
  simp [pure, Except.pure]

theorem map_eq_ok {x : Except ε α} {f : α → β} {b : β} :
    x.map f = .ok b ↔ ∃ a, x = .ok a ∧ f a = b := by
  cases x <;> simp [Except.map]

theorem mapError_eq_ok {ε' : Type} {x : Except ε α} {f : ε → ε'} {a : α} :
    x.mapError f = .ok a ↔ x = .ok a := by
  cases x <;> simp [Except.mapError]

theorem mapError_bind {ε' : Type} (x : Except ε α) (f : α → Except ε β) (g : ε → ε') :
    (x >>= f).mapError g = x.mapError g >>= fun a => (f a).mapError g := by
  cases x <;> rfl

/-- What follows a step only matters for the results that the step has. -/
theorem bind_congr_ok {x : Except ε α} {f g : α → Except ε β}
    (h : ∀ a, x = .ok a → f a = g a) : x >>= f = x >>= g := by
  cases x with
  | error => rfl
  | ok a => exact h a rfl

theorem eq_error_iff {x : Except ε α} {Reason : ε → Prop}
    (fails : ∀ error, Reason error → x = .error error)
    (given : (¬∃ a, x = .ok a) → ∃ error, Reason error) {error : ε} :
    x = .error error ↔ Reason error := by
  refine ⟨fun failed => ?_, fails error⟩
  have without : ¬∃ a, x = .ok a := by
    rw [failed]
    nofun
  obtain ⟨other, reason⟩ := given without
  rwa [← Except.error.inj ((fails other reason).symm.trans failed)]

theorem mapM_eq_ok {f : α → Except ε β} {items : List α} {results : List β} :
    items.mapM f = .ok results ↔ List.Forall₂ (fun a b => f a = .ok b) items results := by
  induction items generalizing results with
  | nil => cases results <;> simp [pure_eq_ok]
  | cons item items ih =>
    rw [List.mapM_cons, List.forall₂_cons_left_iff]
    simp only [bind_eq_ok, pure_eq_ok, ih]
    constructor
    · rintro ⟨a, ha, as, has, rfl⟩
      exact ⟨a, as, ha, has, rfl⟩
    · rintro ⟨a, as, ha, has, rfl⟩
      exact ⟨a, ha, as, has, rfl⟩

theorem exists_forall₂ {R : α → β → Prop} {items : List α} :
    (∃ results, List.Forall₂ R items results) ↔ ∀ item ∈ items, ∃ result, R item result := by
  induction items with
  | nil => simp
  | cons item items ih =>
    simp only [List.forall₂_cons_left_iff, List.forall_mem_cons, ← ih]
    refine ⟨fun ⟨_, b, bs, hb, hbs, _⟩ => ⟨⟨b, hb⟩, bs, hbs⟩,
      fun ⟨⟨b, hb⟩, bs, hbs⟩ => ⟨_, b, bs, hb, hbs, rfl⟩⟩

/-- Every result is the result of an item. -/
theorem exists_of_mem_right {R : α → β → Prop} {items : List α} {results : List β}
    (each : List.Forall₂ R items results) {result : β} (h : result ∈ results) :
    ∃ item ∈ items, R item result := by
  induction each with
  | nil => nomatch h
  | @cons item other _ _ head _ ih =>
    rcases List.mem_cons.mp h with rfl | tail
    · exact ⟨item, List.mem_cons_self, head⟩
    · obtain ⟨found, mem, hr⟩ := ih tail
      exact ⟨found, List.mem_cons_of_mem _ mem, hr⟩

theorem ne_nil_of_forall₂ {R : α → β → Prop} {items : List α} {results : List β}
    (each : List.Forall₂ R items results) (h : items ≠ []) : results ≠ [] := by
  cases each with
  | nil => exact absurd rfl h
  | cons => exact List.cons_ne_nil _ _

theorem forall₂_imp_of_mem {R S : α → β → Prop} {items : List α} {results : List β}
    (each : List.Forall₂ R items results)
    (h : ∀ item ∈ items, ∀ result, R item result → S item result) :
    List.Forall₂ S items results := by
  induction each with
  | nil => exact .nil
  | cons head _ ih =>
    obtain ⟨first, rest⟩ := List.forall_mem_cons.mp h
    exact .cons (first _ head) (ih rest)

theorem forall₂_and_right {R : α → β → Prop} {p : β → Prop} {items : List α} {results : List β} :
    List.Forall₂ (fun item result => R item result ∧ p result) items results ↔
      List.Forall₂ R items results ∧ ∀ result ∈ results, p result := by
  constructor
  · intro each
    refine ⟨each.imp fun _ _ h => h.1, fun result mem => ?_⟩
    obtain ⟨_, _, _, h⟩ := exists_of_mem_right each mem
    exact h
  · rintro ⟨each, h⟩
    induction each with
    | nil => exact .nil
    | cons head _ ih =>
      obtain ⟨first, rest⟩ := List.forall_mem_cons.mp h
      exact .cons ⟨head, first⟩ (ih rest)

/-- Items hand their results over to the items beside them. -/
theorem forall₂_transfer {γ : Type} {R : α → β → Prop} {S : α → γ → Prop} {T : γ → β → Prop}
    {items : List α} {results : List β} {others : List γ} (each : List.Forall₂ R items results)
    (beside : List.Forall₂ S items others) (h : ∀ a b c, R a b → S a c → T c b) :
    List.Forall₂ T others results := by
  induction each generalizing others with
  | nil =>
    cases beside
    exact .nil
  | cons head _ ih =>
    cases beside with
    | cons first rest => exact .cons (h _ _ _ head first) (ih rest)

/-- Items that are related to results with given images have such results. -/
theorem exists_map_forall₂ {γ : Type} {R : α → β → Prop} {f : β → γ} {items : List α}
    {images : List γ} :
    (∃ results, List.Forall₂ R items results ∧ results.map f = images) ↔
      List.Forall₂ (fun item image => ∃ result, R item result ∧ f result = image) items images := by
  constructor
  · rintro ⟨results, each, rfl⟩
    rw [List.forall₂_map_right_iff]
    exact each.imp fun _ result h => ⟨result, h, rfl⟩
  · intro each
    induction each with
    | nil => exact ⟨[], .nil, rfl⟩
    | cons head _ ih =>
      obtain ⟨result, h, rfl⟩ := head
      obtain ⟨results, each, rfl⟩ := ih
      exact ⟨result :: results, .cons h each, rfl⟩

theorem optionMapM_eq_ok {f : α → Except ε β} {item : Option α} {result : Option β} :
    item.mapM f = .ok result ↔ Option.Rel (fun a b => f a = .ok b) item result := by
  cases item with
  | none =>
    simp only [Option.mapM_none, pure_eq_ok]
    constructor
    · rintro rfl
      exact .none
    · rintro ⟨⟩
      rfl
  | some item =>
    simp only [Option.mapM_some, map_eq_pure_bind, bind_eq_ok, pure_eq_ok]
    constructor
    · rintro ⟨a, ha, rfl⟩
      exact .some ha
    · rintro ⟨ha⟩
      exact ⟨_, ha, rfl⟩

end CampusQuery
