import Mathlib
import CampusQuery.Pattern

/-!
# Patterns as globs

A written pattern is read as a glob: an asterisk stands for any text, every other character for
itself (`Glob`).

* `ofText?_eq_none_iff`: the texts that are not patterns are those with an asterisk that is
  neither their first nor their last character.
* `admits_iff_glob`: a pattern admits the texts that its written form matches as a glob.

The second goes through the four shapes of a pattern, of which `glob_literal` and `glob_asterisk`
take off the parts one after another. To match a glob is to fall into parts, one for each character
of it (`glob_iff_exists_parts`); said in this way, `ofText?_splits` has both statements.
-/

namespace CampusQuery

/-- A text is split according to a glob: an asterisk takes any part of it, even none. -/
inductive Glob : List Char → List Char → Prop
  | nil : Glob [] []
  | asterisk {pattern rest : List Char} (part : List Char) (h : Glob pattern rest) :
    Glob ('*' :: pattern) (part ++ rest)
  | char {pattern rest : List Char} {c : Char} (hc : c ≠ '*') (h : Glob pattern rest) :
    Glob (c :: pattern) (c :: rest)

theorem glob_nil {value : List Char} : Glob [] value ↔ value = [] := by
  refine ⟨fun h => ?_, fun h => h ▸ .nil⟩
  cases h
  rfl

theorem glob_asterisk {pattern value : List Char} :
    Glob ('*' :: pattern) value ↔ ∃ part rest, value = part ++ rest ∧ Glob pattern rest := by
  refine ⟨fun h => ?_, fun ⟨part, rest, hv, h⟩ => hv ▸ .asterisk part h⟩
  cases h with
  | asterisk part h => exact ⟨part, _, rfl, h⟩
  | char hc => exact absurd rfl hc

theorem glob_cons {pattern value : List Char} {c : Char} (hc : c ≠ '*') :
    Glob (c :: pattern) value ↔ ∃ rest, value = c :: rest ∧ Glob pattern rest := by
  refine ⟨fun h => ?_, fun ⟨rest, hv, h⟩ => hv ▸ .char hc h⟩
  cases h with
  | asterisk => exact absurd rfl hc
  | char _ h => exact ⟨_, rfl, h⟩

/-- A text without asterisks at the start of a glob stands for itself. -/
theorem glob_literal {text : List Char} (plain : '*' ∉ text) {pattern value : List Char} :
    Glob (text ++ pattern) value ↔ ∃ rest, value = text ++ rest ∧ Glob pattern rest := by
  induction text generalizing value with
  | nil => simp
  | cons c text ih =>
    rw [List.mem_cons, not_or] at plain
    rw [List.cons_append, glob_cons (Ne.symm plain.1)]
    simp only [ih plain.2]
    refine ⟨fun ⟨_, hv, rest, hr, h⟩ => ⟨rest, by rw [hv, hr, List.cons_append], h⟩,
      fun ⟨rest, hv, h⟩ => ⟨text ++ rest, hv, rest, rfl, h⟩⟩

theorem glob_asterisk_nil {value : List Char} : Glob ['*'] value := by
  rw [glob_asterisk]
  exact ⟨value, [], by simp, .nil⟩

/-- The parts of a text that a glob splits it into. -/
theorem glob_iff_exists_parts {pattern value : List Char} :
    Glob pattern value ↔
      ∃ parts, List.Forall₂ (fun c part => c = '*' ∨ part = [c]) pattern parts ∧
        parts.flatten = value := by
  constructor
  · intro h
    induction h with
    | nil => exact ⟨[], .nil, rfl⟩
    | asterisk part _ ih =>
      obtain ⟨parts, each, rfl⟩ := ih
      exact ⟨part :: parts, .cons (.inl rfl) each, rfl⟩
    | char _ _ ih =>
      obtain ⟨parts, each, rfl⟩ := ih
      exact ⟨[_] :: parts, .cons (.inr rfl) each, rfl⟩
  · rintro ⟨parts, each, rfl⟩
    induction each with
    | nil => exact .nil
    | @cons c part pattern parts head _ ih =>
      rw [List.flatten_cons]
      by_cases hc : c = '*'
      · exact hc ▸ .asterisk part ih
      · rw [head.resolve_left hc]
        exact .char hc ih

/-! ## The four shapes -/

section Shapes

variable {text value : List Char} (plain : '*' ∉ text)

include plain

theorem glob_exact : Glob text value ↔ value = text := by
  have h : Glob (text ++ []) value ↔ _ := glob_literal plain
  rw [List.append_nil] at h
  simp [h, glob_nil]

theorem glob_openEnd : Glob (text ++ ['*']) value ↔ text <+: value := by
  rw [glob_literal plain]
  refine ⟨fun ⟨rest, hv, _⟩ => ⟨rest, hv.symm⟩, fun ⟨rest, hv⟩ => ⟨rest, hv.symm, ?_⟩⟩
  exact glob_asterisk_nil

theorem glob_openStart : Glob ('*' :: text) value ↔ text <:+ value := by
  rw [glob_asterisk]
  simp only [glob_exact plain]
  refine ⟨fun ⟨part, _, hv, hr⟩ => ⟨part, by rw [hv, hr]⟩, fun ⟨part, hv⟩ => ⟨part, text, hv.symm, rfl⟩⟩

theorem glob_openBoth : Glob ('*' :: (text ++ ['*'])) value ↔ text <:+: value := by
  rw [glob_asterisk]
  simp only [glob_openEnd plain]
  refine ⟨fun ⟨part, rest, hv, after, hr⟩ => ⟨part, after, ?_⟩,
    fun ⟨part, after, hv⟩ => ⟨part, text ++ after, ?_, after, rfl⟩⟩
  · rw [hv, ← hr, List.append_assoc]
  · rw [← hv, List.append_assoc]

end Shapes

namespace Pattern

/-- Every asterisk of a text is its first or its last character. -/
def OuterAsterisks (raw : String) : Prop :=
  ∀ before after, raw.toList = before ++ '*' :: after → before = [] ∨ after = []

/-- The written form of a pattern. -/
def written (pattern : Pattern) : List Char :=
  (if pattern.openStart then ['*'] else []) ++ pattern.text.toList ++
    (if pattern.openEnd then ['*'] else [])

theorem splitStart_spec (cs : List Char) :
    (if (splitStart cs).1 then ['*'] else []) ++ (splitStart cs).2 = cs := by
  unfold splitStart
  split <;> simp

theorem splitEnd_spec (cs : List Char) :
    (splitEnd cs).2 ++ (if (splitEnd cs).1 then ['*'] else []) = cs := by
  unfold splitEnd
  split
  · rename_i h
    simpa using List.dropLast_append_getLast? '*' h
  · simp

/-- An asterisk at the start is never left there. -/
theorem splitStart_false {cs : List Char} (h : (splitStart cs).1 = false) :
    cs.head? ≠ some '*' := by
  unfold splitStart at h
  split at h
  · cases h
  · rename_i other
    cases cs with
    | nil => simp
    | cons c cs => simpa using fun hc => other cs (by rw [hc])

/-- An asterisk at the end is never left there. -/
theorem splitEnd_false {cs : List Char} (h : (splitEnd cs).1 = false) :
    (splitEnd cs).2.getLast? ≠ some '*' := by
  unfold splitEnd at h ⊢
  split at h
  · cases h
  · rename_i other
    rwa [if_neg other]

/-- What is left of a text between its outer asterisks. -/
def inner (raw : String) : List Char := (splitEnd (splitStart raw.toList).2).2

theorem toList_eq_inner (raw : String) :
    raw.toList = (if (splitStart raw.toList).1 then ['*'] else []) ++ inner raw ++
      (if (splitEnd (splitStart raw.toList).2).1 then ['*'] else []) := by
  rw [List.append_assoc, inner, splitEnd_spec, splitStart_spec]

theorem ofText?_eq_none {raw : String} : ofText? raw = none ↔ '*' ∈ inner raw := by
  simp only [ofText?, inner]
  split <;> simp_all

theorem ofText?_eq_some {raw : String} {pattern : Pattern} (h : ofText? raw = some pattern) :
    '*' ∉ pattern.text.toList ∧ raw.toList = pattern.written := by
  have plain : '*' ∉ inner raw := fun bad => by simp [ofText?_eq_none.mpr bad] at h
  have hp : ofText? raw = some ⟨(splitStart raw.toList).1, .ofList (inner raw),
      (splitEnd (splitStart raw.toList).2).1⟩ := if_neg plain
  rw [hp, Option.some.injEq] at h
  subst h
  refine ⟨by simpa using plain, ?_⟩
  rw [written, String.toList_ofList]
  exact toList_eq_inner raw

/-- Behind the last asterisk of a text that has one only at its end, nothing follows. -/
theorem after_eq_nil {plain before after : List Char} (h : '*' ∉ plain) {openEnd : Bool}
    (hs : plain ++ (if openEnd then ['*'] else []) = before ++ '*' :: after) : after = [] := by
  rcases List.append_eq_append_iff.mp hs with ⟨part, -, he⟩ | ⟨part, hp, he⟩
  · cases openEnd <;> cases part <;> simp_all
  · cases part with
    | nil => cases openEnd <;> simp_all
    | cons c part =>
      rw [List.cons_append, List.cons.injEq] at he
      exact absurd (by rw [hp, ← he.1]; simp) h

theorem not_mem_inner {raw : String} (h : '*' ∉ inner raw) : OuterAsterisks raw := by
  intro before after hr
  have parts := toList_eq_inner raw
  rw [List.append_assoc] at parts
  generalize (splitStart raw.toList).1 = openStart at parts
  rw [hr] at parts
  cases openStart with
  | false => exact .inr (after_eq_nil h parts.symm)
  | true =>
    cases before with
    | nil => exact .inl rfl
    | cons c before =>
      rw [if_pos rfl, List.cons_append, List.cons_append, List.nil_append, List.cons.injEq] at parts
      exact .inr (after_eq_nil h parts.2.symm)

theorem not_outer_of_mem_inner {raw : String} (h : '*' ∈ inner raw) : ¬OuterAsterisks raw := by
  intro outer
  obtain ⟨before, after, hi⟩ := List.append_of_mem h
  have parts := toList_eq_inner raw
  have start := @splitStart_false raw.toList
  have last := @splitEnd_false (splitStart raw.toList).2
  rw [← inner, hi] at last
  rw [hi, List.append_assoc, List.append_assoc, List.cons_append, ← List.append_assoc] at parts
  generalize (splitStart raw.toList).1 = openStart at parts start
  generalize (splitEnd (splitStart raw.toList).2).1 = openEnd at parts last
  -- An outer asterisk is taken off wherever there is one, so no other is the first or the last.
  rcases outer _ _ parts with hb | ha
  · cases openStart with
    | false => exact start rfl (by rw [parts, hb]; rfl)
    | true => simp at hb
  · cases openEnd with
    | false =>
      have end_eq : after = [] := by simpa using ha
      exact last rfl (by simp [end_eq])
    | true => simp at ha

/-- A text is a pattern unless an asterisk stands between other characters of it. -/
theorem ofText?_eq_none_iff {raw : String} : ofText? raw = none ↔ ¬OuterAsterisks raw :=
  ofText?_eq_none.trans ⟨not_outer_of_mem_inner, fun h => not_not.mp fun plain => h (not_mem_inner plain)⟩

/-- A pattern admits what its written form matches. -/
theorem admits_iff_glob {raw value : String} {pattern : Pattern} (h : ofText? raw = some pattern) :
    pattern.admits value = true ↔ Glob raw.toList value.toList := by
  obtain ⟨plain, hw⟩ := ofText?_eq_some h
  rw [hw]
  obtain ⟨openStart, text, openEnd⟩ := pattern
  cases openStart <;> cases openEnd
  · have hg : Glob text.toList value.toList ↔ _ := glob_exact plain
    simpa [admits, written, String.toList_inj] using hg.symm
  · have hg : Glob (text.toList ++ ['*']) value.toList ↔ _ := glob_openEnd plain
    simpa [admits, written] using hg.symm
  · have hg : Glob ('*' :: text.toList) value.toList ↔ _ := glob_openStart plain
    simpa [admits, written] using hg.symm
  · have hg : Glob ('*' :: (text.toList ++ ['*'])) value.toList ↔ _ := glob_openBoth plain
    simpa [admits, written, occursIn_iff] using hg.symm

/-- The text falls into parts, one for each character of the written form: any part for an asterisk,
and for another character the character itself. -/
def Splits (raw value : String) : Prop :=
  ∃ parts, List.Forall₂ (fun c part => c = '*' ∨ part = [c]) raw.toList parts ∧
    parts.flatten = value.toList

/-- A text is no pattern if an asterisk stands between other characters of it. Otherwise it is one,
which admits the texts that split according to it and no others. -/
theorem ofText?_splits (raw : String) :
    (ofText? raw = none ↔
      ∃ before after, before ≠ [] ∧ after ≠ [] ∧ raw.toList = before ++ '*' :: after) ∧
    ∀ pattern, ofText? raw = some pattern →
      ∀ value, pattern.admits value = true ↔ Splits raw value := by
  refine ⟨?_, fun pattern written value => ?_⟩
  · rw [ofText?_eq_none_iff]
    simp only [OuterAsterisks, not_forall, not_or]
    exact ⟨fun ⟨before, after, hr, hb, ha⟩ => ⟨before, after, hb, ha, hr⟩,
      fun ⟨before, after, hb, ha, hr⟩ => ⟨before, after, hr, hb, ha⟩⟩
  · rw [admits_iff_glob written, glob_iff_exists_parts]
    rfl

example : ofText? "*" = some ⟨true, "", false⟩ ∧ ofText? "**" = some ⟨true, "", true⟩ ∧
    ofText? "***" = none := by
  decide

end Pattern

end CampusQuery
