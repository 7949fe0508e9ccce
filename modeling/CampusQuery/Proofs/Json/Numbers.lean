import Mathlib
import CampusQuery.Json.Writer
import CampusQuery.Json.Number

/-!
# Integers in text

An integer that fits 64 bits, with a sign or without, is read back from its digits
(`scanNumber_writeInt`), whatever follows them that does not carry the number on (`Stops`).
-/

namespace CampusQuery.Json

/-- The text does not go on with a number: it has no digit, point or exponent in front. -/
def Stops (rest : List Char) : Prop :=
  ∀ c ∈ rest.head?, c.isDigit = false ∧ c ≠ '.' ∧ c ≠ 'e' ∧ c ≠ 'E'

theorem stops_nil : Stops [] := nofun

theorem le_ofDigitChars (digits : List Char) (head : Nat) :
    head ≤ Nat.ofDigitChars 10 digits head := by
  induction digits generalizing head with
  | nil => exact Nat.le_refl head
  | cons c digits ih =>
    rw [Nat.ofDigitChars_cons]
    exact Nat.le_trans (by omega) (ih _)

/-- Digits are taken up as long as the number that they make fits. -/
theorem takeDigits_eq {digits : List Char} {head : Nat}
    (fits : Nat.ofDigitChars 10 digits head < 2 ^ 64) :
    takeDigits head digits = (Nat.ofDigitChars 10 digits head, []) := by
  induction digits generalizing head with
  | nil => rfl
  | cons c digits ih =>
    rw [Nat.ofDigitChars_cons, Nat.mul_comm 10 head] at fits ⊢
    have next := Nat.lt_of_le_of_lt (le_ofDigitChars digits _) fits
    rw [takeDigits, if_pos (by omega), ih fits]

/-- Only zero starts with a zero. -/
theorem exists_toDigits (n : Nat) :
    ∃ c digits, Nat.toDigits 10 n = c :: digits ∧ c.isDigit = true ∧
      (c = '0' → n = 0 ∧ digits = []) := by
  induction n using Nat.strong_induction_on with
  | _ n ih =>
    rcases Nat.lt_or_ge n 10 with small | large
    · refine ⟨n.digitChar, [], Nat.toDigits_of_lt_base small, ?_, ?_⟩
      · rw [Nat.isDigit_digitChar, decide_eq_true small]
      · interval_cases n <;> decide
    · obtain ⟨c, digits, written, digit, zero⟩ := ih (n / 10) (by omega)
      refine ⟨c, digits ++ [(n % 10).digitChar], ?_, digit, fun first => ?_⟩
      · rw [Nat.toDigits_of_base_le (by decide) large, written, List.cons_append]
      · have := (zero first).1
        omega

theorem spanDigits_append {digits rest : List Char} (each : ∀ c ∈ digits, c.isDigit = true)
    (stops : Stops rest) : spanDigits (digits ++ rest) = (digits, rest) := by
  have left : rest.takeWhile Char.isDigit = [] ∧ rest.dropWhile Char.isDigit = rest := by
    cases rest with
    | nil => exact ⟨rfl, rfl⟩
    | cons c rest =>
      have first := (stops c rfl).1
      simp [first]
  rw [spanDigits, List.takeWhile_append_of_pos each, List.dropWhile_append_of_pos each, left.1,
    left.2, List.append_nil]

theorem scanWhole_toDigits (n : Nat) {rest : List Char} (stops : Stops rest) :
    scanWhole (Nat.toDigits 10 n ++ rest) = some (Nat.toDigits 10 n, rest) := by
  obtain ⟨c, digits, written, digit, zero⟩ := exists_toDigits n
  by_cases first : c = '0'
  · obtain ⟨_, rfl⟩ := zero first
    subst first
    rw [written]
    rfl
  · have each : ∀ d ∈ c :: digits, d.isDigit = true := fun d mem =>
      Nat.isDigit_of_mem_toDigits (by decide) (by decide) (written ▸ mem)
    have taken := spanDigits_append each stops
    rw [written]
    rw [List.cons_append] at taken ⊢
    unfold scanWhole
    split
    · rename_i h
      exact absurd (List.cons.inj h).1 first
    · rename_i h
      obtain ⟨rfl, rfl⟩ := List.cons.inj h
      rw [if_pos digit, taken]
    · rename_i h
      cases h

theorem scanMinus_writeInt (n : Int) (rest : List Char) :
    scanMinus (writeInt n ++ rest) = (decide (n < 0), Nat.toDigits 10 n.natAbs ++ rest) := by
  by_cases negative : n < 0
  · rw [writeInt, if_pos negative, decide_eq_true negative]
    rfl
  · rw [writeInt, if_neg negative, decide_eq_false negative, List.nil_append]
    obtain ⟨c, digits, written, digit, _⟩ := exists_toDigits n.natAbs
    rw [written, List.cons_append]
    unfold scanMinus
    split
    · rename_i h
      obtain ⟨rfl, _⟩ := List.cons.inj h
      exact absurd digit (by decide)
    · rfl

theorem scanFraction_of_stops {rest : List Char} (stops : Stops rest) :
    scanFraction rest = some (none, rest) := by
  unfold scanFraction
  split
  · exact absurd rfl (stops '.' rfl).2.1
  · rfl

theorem scanExponent_of_stops {rest : List Char} (stops : Stops rest) :
    scanExponent rest = some (none, rest) := by
  unfold scanExponent
  split
  · rename_i c rest
    obtain ⟨_, _, lower, upper⟩ := stops c rfl
    rw [if_neg (not_or.mpr ⟨lower, upper⟩)]
  · rfl

theorem number?_toDigits {n : Int} (lower : -2 ^ 63 ≤ n) (upper : n < 2 ^ 64) :
    NumberText.number? ⟨n < 0, Nat.toDigits 10 n.natAbs, none, none⟩ = some (.integer n) := by
  have value : Nat.ofDigitChars 10 (Nat.toDigits 10 n.natAbs) 0 = n.natAbs :=
    Nat.ofDigitChars_toDigits (by decide) (by decide)
  have taken : takeDigits 0 (Nat.toDigits 10 n.natAbs) = (n.natAbs, []) := by
    rw [takeDigits_eq (by omega), value]
  unfold NumberText.number?
  simp only [taken, decide_eq_true_eq]
  split
  · rename_i negative
    rw [if_pos (by omega), Int.ofNat_natAbs_of_nonpos (by omega), Int.neg_neg]
  · rename_i nonneg
    rw [Int.natAbs_of_nonneg (by omega)]

/-- An integer is read back from its text. -/
theorem scanNumber_writeInt {n : Int} (lower : -2 ^ 63 ≤ n) (upper : n < 2 ^ 64) {rest : List Char}
    (stops : Stops rest) : scanNumber (writeInt n ++ rest) = some (.integer n, rest) := by
  simp only [scanNumber, scanMinus_writeInt, scanWhole_toDigits _ stops,
    scanFraction_of_stops stops, scanExponent_of_stops stops, number?_toDigits lower upper,
    Option.bind_eq_bind, Option.bind_some, Option.pure_def]

end CampusQuery.Json
