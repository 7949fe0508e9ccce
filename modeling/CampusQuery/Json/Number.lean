import CampusQuery.PowerOfTen
import CampusQuery.Json.Basic

/-!
# Number text

A number without point and exponent is whole if it fits 64 bits, signed or unsigned; `-0` is not.
Any other number is a significand, the leading digits as far as they fit 64 bits, scaled by a
power of ten in binary64 arithmetic. A number too large for binary64 is refused; one too small is
zero.
-/

namespace CampusQuery.Json

/-- The parts of a number's text, each without its mark. -/
structure NumberText where
  negative : Bool
  whole : List Char
  fraction : Option (List Char)
  exponent : Option (Bool × List Char)

/-- Takes up digits as long as the significand stays below 2⁶⁴, and returns the digits left. -/
def takeDigits (significand : Nat) : List Char → Nat × List Char
  | [] => (significand, [])
  | c :: rest =>
    let next := significand * 10 + (c.toNat - '0'.toNat)
    if next < 1 <<< 64 then takeDigits next rest else (significand, c :: rest)

/-- The nearest binary64 number to `10 ^ k`. -/
def powerOfTen (k : Nat) : Binary64 := .ofNat (pow10 k)

/-- The greatest `k` for which `10 ^ k` is a finite binary64 number. -/
def maxPower : Nat := 308

/-- Divides by `10 ^ k`, by steps of `10 ^ 308` where `k` is greater. -/
def divPowerOfTen (x : Binary64) (k : Nat) : Binary64 :=
  if k ≤ maxPower then x / powerOfTen k
  else if x.isZero then x
  else divPowerOfTen (x / powerOfTen maxPower) (k - maxPower)
termination_by k
decreasing_by
  simp only [maxPower] at *
  omega

/-- Multiplies by `10 ^ k`, unless the product is not finite. -/
def mulPowerOfTen? (x : Binary64) (k : Nat) : Option Binary64 :=
  if k ≤ maxPower then
    let product := x * powerOfTen k
    if product.isInfinite then none else some product
  else if x.isZero then some x
  else none

def scale? (x : Binary64) (exponent : Int) : Option Binary64 :=
  if 0 ≤ exponent then mulPowerOfTen? x exponent.toNat
  else some (divPowerOfTen x exponent.natAbs)

/-- The number `significand · 10 ^ exponent` in binary64, if it is not too large. -/
def float? (negative : Bool) (significand : Nat) (exponent : Int) : Option Number :=
  (scale? (.ofNat significand) exponent).map fun x => .float (if negative then -x else x)

/-- The greatest exponent that is read as a number; greater ones only say "too large" or zero. -/
def maxExponent : Nat := 2147483647

/-- The number of a text. -/
def NumberText.number? (text : NumberText) : Option Number :=
  let (head, dropped) := takeDigits 0 text.whole
  match text.fraction, text.exponent, dropped with
  | none, none, [] =>
    if text.negative then
      if 0 < head ∧ head ≤ 1 <<< 63 then some (.integer (-head)) else some (.float (-(.ofNat head)))
    else some (.integer head)
  | fraction, exponent, _ =>
    let fraction := fraction.getD []
    let (significand, ignored) := takeDigits head fraction
    let shift : Int := dropped.length - (fraction.length - ignored.length : Nat)
    match exponent with
    | none => float? text.negative significand shift
    | some (down, digits) =>
      let size := Nat.ofDigitChars 10 digits 0
      if maxExponent < size then
        if significand ≠ 0 ∧ !down then none
        else some (.float (if text.negative then -.zero else .zero))
      else float? text.negative significand (if down then shift - size else shift + size)

/-- The digits at the front of a text, and the rest. -/
def spanDigits (cs : List Char) : List Char × List Char :=
  (cs.takeWhile Char.isDigit, cs.dropWhile Char.isDigit)

/-- The digits after a point: at least one must follow it. -/
def scanFraction : List Char → Option (Option (List Char) × List Char)
  | '.' :: rest =>
    match spanDigits rest with
    | ([], _) => none
    | (digits, rest) => some (some digits, rest)
  | rest => some (none, rest)

/-- The sign of an exponent, true for a minus. -/
def scanSign : List Char → Bool × List Char
  | '+' :: rest => (false, rest)
  | '-' :: rest => (true, rest)
  | rest => (false, rest)

/-- The exponent: at least one digit must follow its mark and sign. -/
def scanExponent : List Char → Option (Option (Bool × List Char) × List Char)
  | c :: rest =>
    if c = 'e' ∨ c = 'E' then
      let (down, rest) := scanSign rest
      match spanDigits rest with
      | ([], _) => none
      | (digits, rest) => some (some (down, digits), rest)
    else some (none, c :: rest)
  | [] => some (none, [])

/-- The digits before the point: a leading zero stands alone. -/
def scanWhole : List Char → Option (List Char × List Char)
  | '0' :: rest => some (['0'], rest)
  | c :: rest => if c.isDigit then some (spanDigits (c :: rest)) else none
  | [] => none

def scanMinus : List Char → Bool × List Char
  | '-' :: rest => (true, rest)
  | rest => (false, rest)

/-- The number at the front of a text, and the rest. -/
def scanNumber (cs : List Char) : Option (Number × List Char) := do
  let (negative, cs) := scanMinus cs
  let (whole, cs) ← scanWhole cs
  let (fraction, cs) ← scanFraction cs
  let (exponent, cs) ← scanExponent cs
  let number ← NumberText.number? ⟨negative, whole, fraction, exponent⟩
  return (number, cs)

/-! ## What is left is shorter -/

theorem length_spanDigits (cs : List Char) : (spanDigits cs).2.length ≤ cs.length :=
  (List.dropWhile_sublist _).length_le

theorem length_scanMinus (cs : List Char) : (scanMinus cs).2.length ≤ cs.length := by
  unfold scanMinus
  split <;> simp

theorem length_scanSign (cs : List Char) : (scanSign cs).2.length ≤ cs.length := by
  unfold scanSign
  split <;> simp

theorem length_scanWhole {cs digits rest : List Char} (h : scanWhole cs = some (digits, rest)) :
    rest.length < cs.length := by
  unfold scanWhole at h
  split at h
  · cases h
    simp
  · next c tail _ =>
    split at h
    · next hc =>
      obtain rfl := (Prod.mk.inj (Option.some.inj h)).2
      rw [List.dropWhile_cons_of_pos hc, List.length_cons]
      exact Nat.lt_succ_of_le (List.dropWhile_sublist _).length_le
    · simp at h
  · simp at h

theorem length_scanFraction {cs rest : List Char} {fraction}
    (h : scanFraction cs = some (fraction, rest)) : rest.length ≤ cs.length := by
  unfold scanFraction at h
  split at h
  · next tail =>
    have := length_spanDigits tail
    split at h
    · simp at h
    · next heq =>
      cases h
      simp only [heq] at this
      simp only [List.length_cons]
      omega
  · cases h
    exact Nat.le_refl _

theorem length_scanExponent {cs rest : List Char} {exponent}
    (h : scanExponent cs = some (exponent, rest)) : rest.length ≤ cs.length := by
  unfold scanExponent at h
  split at h
  · next c tail =>
    split at h
    · have h₁ := length_scanSign tail
      have h₂ := length_spanDigits (scanSign tail).2
      dsimp only at h
      split at h
      · simp at h
      · next heq =>
        cases h
        simp only [heq] at h₂
        simp only [List.length_cons]
        omega
    · cases h
      exact Nat.le_refl _
  · cases h
    exact Nat.le_refl _

theorem length_scanNumber {cs rest : List Char} {number : Number}
    (h : scanNumber cs = some (number, rest)) : rest.length < cs.length := by
  have h₀ := length_scanMinus cs
  simp only [scanNumber, Option.bind_eq_bind, Option.bind_eq_some_iff, Option.pure_def,
    Option.some.injEq, Prod.exists, Prod.mk.injEq] at h
  obtain ⟨_, _, h₁, _, _, h₂, _, _, h₃, _, _, _, rfl⟩ := h
  have := length_scanWhole h₁
  have := length_scanFraction h₂
  have := length_scanExponent h₃
  omega

end CampusQuery.Json
