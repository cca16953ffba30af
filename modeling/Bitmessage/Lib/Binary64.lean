import Mathlib.Algebra.Order.Field.Power
import Mathlib.Data.Int.Log
import Mathlib.Data.Rat.Floor
import Mathlib.Tactic.Linarith
import Mathlib.Tactic.NormNum

/-! The numbers of the format `binary64`, each in its one normal form, and the rounding of rationals to the
nearest of them with ties to the even mantissa. -/

/-- A magnitude `mantissa * 2 ^ exponent`. Only subnormal numbers and zero have less than 53 bits. -/
@[ext]
structure Magnitude64 where
  mantissa : ℕ
  exponent : ℤ
  mantissa_lt : mantissa < 2 ^ 53
  le_exponent : -1074 ≤ exponent
  exponent_le : exponent ≤ 971
  normal : exponent = -1074 ∨ 2 ^ 52 ≤ mantissa
  deriving DecidableEq

inductive Binary64 where
  | nan
  | infinite (negative : Bool)
  | finite (negative : Bool) (magnitude : Magnitude64)
  deriving DecidableEq

namespace Binary64

/-- The nearest natural number, of two the even one. -/
def nearestEven (q : ℚ) : ℕ :=
  if q - ⌊q⌋₊ < 1 / 2 then ⌊q⌋₊
  else if 1 / 2 < q - ⌊q⌋₊ then ⌊q⌋₊ + 1
  else ⌊q⌋₊ + ⌊q⌋₊ % 2

theorem nearestEven_natCast (n : ℕ) : nearestEven n = n := by
  rw [nearestEven, Nat.floor_natCast, sub_self, if_pos (by norm_num)]

theorem le_nearestEven {n : ℕ} {q : ℚ} (h : n ≤ q) : n ≤ nearestEven q := by
  have hfloor : n ≤ ⌊q⌋₊ := Nat.le_floor h
  rw [nearestEven]
  split_ifs <;> omega

/-- The exponent with which a positive number has 53 bits in front of the point, or the least one. -/
def targetExponent (q : ℚ) : ℤ := max (Int.log 2 q - 52) (-1074)

theorem le_targetExponent (q : ℚ) : -1074 ≤ targetExponent q := le_max_right _ _

theorem targetExponent_normal {q : ℚ} (hq : 0 < q) :
    targetExponent q = -1074 ∨ 2 ^ 52 ≤ nearestEven (q / 2 ^ targetExponent q) := by
  rcases le_total (Int.log 2 q - 52) (-1074) with h | h
  · left
    exact max_eq_right h
  · right
    apply le_nearestEven
    have hlog := Int.zpow_log_le_self (b := 2) (by norm_num) hq
    rw [targetExponent, max_eq_left h, le_div_iff₀ (by positivity)]
    push_cast at hlog ⊢
    calc (2 : ℚ) ^ 52 * 2 ^ (Int.log 2 q - 52) = 2 ^ Int.log 2 q := by
          rw [← zpow_natCast, ← zpow_add₀ (by norm_num)]
          congr 1
          push_cast
          omega
      _ ≤ q := hlog

/-- A rational that is not negative, rounded; none when it is too large. -/
def roundMagnitude (q : ℚ) : Option Magnitude64 :=
  if hq : q ≤ 0 then some ⟨0, -1074, by norm_num, le_rfl, by norm_num, .inl rfl⟩
  else if hm : nearestEven (q / 2 ^ targetExponent q) < 2 ^ 53 then
    if he : targetExponent q ≤ 971 then
      some ⟨nearestEven (q / 2 ^ targetExponent q), targetExponent q, hm, le_targetExponent q, he,
        targetExponent_normal (not_le.mp hq)⟩
    else none
  else if he : targetExponent q + 1 ≤ 971 then
    some ⟨2 ^ 52, targetExponent q + 1, by norm_num, Int.le_add_one (le_targetExponent q), he,
      .inr le_rfl⟩
  else none

/-- The number next to a rational of this sign. -/
def ofRat (negative : Bool) (q : ℚ) : Binary64 :=
  match roundMagnitude q with
  | some x => .finite negative x
  | none => .infinite negative

def ofInt (n : ℤ) : Binary64 := ofRat (decide (n < 0)) n.natAbs

/-- Equality of the numbers: neither is `nan`, and the zeros are equal. -/
def beq : Binary64 → Binary64 → Bool
  | .infinite negative, .infinite negative' => negative == negative'
  | .finite negative x, .finite negative' x' =>
    decide (x = x') && (negative == negative' || decide (x.mantissa = 0))
  | _, _ => false

/-- The integer next to a finite number in the direction of zero. -/
def trunc : Binary64 → Option ℤ
  | .finite false x => some ⌊(x.mantissa : ℚ) * 2 ^ x.exponent⌋₊
  | .finite true x => some (-⌊(x.mantissa : ℚ) * 2 ^ x.exponent⌋₊)
  | _ => none

end Binary64

namespace Magnitude64

open Binary64

def value (x : Magnitude64) : ℚ := x.mantissa * 2 ^ x.exponent

theorem targetExponent_value (x : Magnitude64) (hpos : 0 < x.mantissa) : targetExponent x.value = x.exponent := by
  have htwo : (0 : ℚ) < 2 ^ x.exponent := by positivity
  have hmantissa : (0 : ℚ) < x.mantissa := by exact_mod_cast hpos
  have hvalue : 0 < x.value := mul_pos hmantissa htwo
  have hupper : x.value < (2 : ℕ) ^ (53 + x.exponent) := by
    have hlt : (x.mantissa : ℚ) < 2 ^ 53 := by exact_mod_cast x.mantissa_lt
    push_cast
    rw [zpow_add₀ (by norm_num)]
    exact mul_lt_mul_of_pos_right hlt htwo
  have hlog := (Int.lt_zpow_iff_log_lt (by norm_num) hvalue).mp hupper
  rw [targetExponent]
  rcases x.normal with hsub | hnormal
  · rw [hsub] at hlog ⊢
    exact max_eq_right (by omega)
  · have hlower : (2 : ℕ) ^ (52 + x.exponent) ≤ x.value := by
      have hle : (2 : ℚ) ^ 52 ≤ x.mantissa := by exact_mod_cast hnormal
      push_cast
      rw [zpow_add₀ (by norm_num)]
      exact mul_le_mul_of_nonneg_right hle htwo.le
    have hle := (Int.zpow_le_iff_le_log (by norm_num) hvalue).mp hlower
    have hexponent := x.le_exponent
    rw [max_eq_left (by omega)]
    omega

/-- What has the format is not changed by rounding. -/
theorem roundMagnitude_value (x : Magnitude64) (hpos : 0 < x.mantissa) : roundMagnitude x.value = some x := by
  have htwo : (0 : ℚ) < 2 ^ x.exponent := by positivity
  have hmantissa : (0 : ℚ) < x.mantissa := by exact_mod_cast hpos
  have hnot : ¬x.value ≤ 0 := not_le.mpr (mul_pos hmantissa htwo)
  have hexponent := x.targetExponent_value hpos
  have hnearest : nearestEven (x.value / 2 ^ targetExponent x.value) = x.mantissa := by
    rw [hexponent, value, mul_div_cancel_right₀ _ htwo.ne', nearestEven_natCast]
  rw [roundMagnitude, dif_neg hnot, dif_pos (by rw [hnearest]; exact x.mantissa_lt),
    dif_pos (by rw [hexponent]; exact x.exponent_le)]
  congr 1
  exact Magnitude64.ext hnearest hexponent

end Magnitude64

namespace Binary64

/-- A natural number of at most 53 bits has the format. -/
theorem exists_magnitude {n : ℕ} (hpos : 0 < n) (h : n ≤ 2 ^ 53) :
    ∃ x : Magnitude64, 0 < x.mantissa ∧ x.value = n := by
  rcases h.eq_or_lt with rfl | hlt
  · exact ⟨⟨2 ^ 52, 1, by norm_num, by norm_num, by norm_num, .inr le_rfl⟩, by norm_num, by
      norm_num [Magnitude64.value]⟩
  · have hlog : Nat.log 2 n ≤ 52 := Nat.lt_succ_iff.mp (Nat.log_lt_of_lt_pow hpos.ne' hlt)
    have hsplit : 2 ^ (52 - Nat.log 2 n) * 2 ^ (Nat.log 2 n + 1) = 2 ^ 53 := by
      rw [← pow_add]
      congr 1
      omega
    have hlow : 2 ^ 52 ≤ n * 2 ^ (52 - Nat.log 2 n) := by
      have := Nat.mul_le_mul_left (2 ^ (52 - Nat.log 2 n)) (Nat.pow_log_le_self 2 hpos.ne')
      rw [← pow_add, Nat.sub_add_cancel hlog, Nat.mul_comm] at this
      exact this
    have hhigh : n * 2 ^ (52 - Nat.log 2 n) < 2 ^ 53 := by
      rw [← hsplit, Nat.mul_comm]
      exact Nat.mul_lt_mul_of_pos_left (Nat.lt_pow_succ_log_self (by norm_num) n) (by positivity)
    refine ⟨⟨n * 2 ^ (52 - Nat.log 2 n), -(52 - Nat.log 2 n : ℕ), hhigh, by omega, by omega, .inr hlow⟩,
      Nat.mul_pos hpos (by positivity), ?_⟩
    rw [Magnitude64.value]
    push_cast
    rw [zpow_neg, zpow_natCast, mul_assoc, mul_inv_cancel₀ (by positivity), mul_one]

/-- Integers of at most 53 bits are numbers of the format. -/
theorem trunc_ofInt {n : ℤ} (h : n.natAbs ≤ 2 ^ 53) : (ofInt n).trunc = some n := by
  rcases Nat.eq_zero_or_pos n.natAbs with hzero | hpos
  · have hn := Int.natAbs_eq_zero.mp hzero
    subst hn
    simp [ofInt, ofRat, roundMagnitude, trunc]
  · obtain ⟨x, hx, hvalue⟩ := exists_magnitude hpos h
    have hfloor : ⌊(x.mantissa : ℚ) * 2 ^ x.exponent⌋₊ = n.natAbs := by
      rw [← Magnitude64.value, hvalue, Nat.floor_natCast]
    rw [ofInt, ofRat, ← hvalue, x.roundMagnitude_value hx]
    rcases lt_or_ge n 0 with hneg | hnonneg
    · rw [decide_eq_true hneg, trunc, hfloor]
      congr 1
      omega
    · rw [decide_eq_false (not_lt.mpr hnonneg), trunc, hfloor]
      congr 1
      omega

theorem beq_self_ofInt (n : ℤ) : beq (ofInt n) (ofInt n) = true := by
  rw [ofInt, ofRat]
  split <;> simp [beq]

end Binary64
