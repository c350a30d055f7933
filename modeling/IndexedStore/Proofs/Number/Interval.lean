import Mathlib
import IndexedStore.Number.FloatText

/-! # Reals that round to a magnitude

The integer tests of the decimal search decide which rationals round to a magnitude. Magnitudes
of doubles are ordered by mantissa within a binade and by exponent across binades, and what
rounds to the smaller one is below what rounds to the larger one.
-/
namespace IndexedStore.Number

theorem pow_toNat (a : ℕ) (ha : (a : ℚ) ≠ 0) (n : ℤ) :
    (a : ℚ) ^ n.toNat = (a : ℚ) ^ n * (a : ℚ) ^ (-n).toNat := by
  rw [← zpow_natCast, ← zpow_natCast, ← zpow_add₀ ha]
  congr 1
  omega

/-- The number `digits · 10^exponent`. -/
def Decimal.value (d : Decimal) : ℚ := d.digits * 10 ^ d.exponent

namespace Magnitude

variable {x : Magnitude} {v : ℚ} {p : ℤ} {d : ℕ}

def value (x : Magnitude) : ℚ := x.mantissa * 2 ^ x.exponent

/-- The unit of `scaled`, a quarter of the last binary place. -/
def quarter (x : Magnitude) : ℚ := 2 ^ (x.exponent - 2)

/-- `v` rounds to the magnitude: it lies between the ends of the interval, or on one of them
when they are closed. -/
def StandsFor (x : Magnitude) (v : ℚ) : Prop :=
  if x.closed then x.low * x.quarter ≤ v ∧ v ≤ x.high * x.quarter
  else x.low * x.quarter < v ∧ v < x.high * x.quarter

theorem quarter_pos (x : Magnitude) : 0 < x.quarter := zpow_pos two_pos _

theorem scaled_mul_quarter (x : Magnitude) : x.scaled * x.quarter = x.value := by
  rw [scaled, quarter, value, zpow_sub₀ two_ne_zero]
  push_cast
  ring

theorem low_lt_scaled (hx : 0 < x.mantissa) : x.low < x.scaled := by
  unfold low scaled
  split <;> omega

theorem scaled_le_low (x : Magnitude) : x.scaled ≤ x.low + 2 := by
  unfold low
  split <;> omega

theorem StandsFor.low_le (h : x.StandsFor v) : x.low * x.quarter ≤ v := by
  unfold StandsFor at h
  split at h
  · exact h.1
  · exact h.1.le

theorem StandsFor.le_high (h : x.StandsFor v) : v ≤ x.high * x.quarter := by
  unfold StandsFor at h
  split at h
  · exact h.2
  · exact h.2.le

theorem StandsFor.closed_of_eq_low (h : x.StandsFor v) (hv : v = x.low * x.quarter) :
    x.closed = true := by
  unfold StandsFor at h
  split at h
  · assumption
  · exact absurd hv h.1.ne'

theorem StandsFor.closed_of_eq_high (h : x.StandsFor v) (hv : v = x.high * x.quarter) :
    x.closed = true := by
  unfold StandsFor at h
  split at h
  · assumption
  · exact absurd hv h.2.ne

theorem standsFor_of_lt (hl : x.low * x.quarter < v) (hh : v < x.high * x.quarter) :
    x.StandsFor v := by
  unfold StandsFor
  split
  · exact ⟨hl.le, hh.le⟩
  · exact ⟨hl, hh⟩

theorem standsFor_value (hx : 0 < x.mantissa) : x.StandsFor x.value := by
  have hq := x.quarter_pos
  rw [← scaled_mul_quarter]
  refine standsFor_of_lt ?_ ?_
  · exact mul_lt_mul_of_pos_right (Nat.cast_lt.mpr (low_lt_scaled hx)) hq
  · exact mul_lt_mul_of_pos_right (Nat.cast_lt.mpr (Nat.lt_add_of_pos_right two_pos)) hq

theorem StandsFor.between {u w : ℚ} (hu : x.StandsFor u) (hw : x.StandsFor w) (huv : u ≤ v)
    (hvw : v ≤ w) : x.StandsFor v := by
  unfold StandsFor at *
  by_cases hc : x.closed = true
  · rw [if_pos hc] at *
    exact ⟨hu.1.trans huv, hvw.trans hw.2⟩
  · rw [if_neg hc] at *
    exact ⟨hu.1.trans_le huv, hvw.trans_lt hw.2⟩

theorem StandsFor.pos (hx : 0 < x.mantissa) (h : x.StandsFor v) : 0 < v := by
  have hlow : 0 < x.low := by
    unfold low scaled
    split <;> omega
  exact (mul_pos (Nat.cast_pos.mpr hlow) x.quarter_pos).trans_le h.low_le

/-! ## The search in integers -/

def denominator (x : Magnitude) (p : ℤ) : ℚ :=
  10 ^ (-p).toNat * 2 ^ (-(x.exponent - 2)).toNat

theorem denominator_pos (x : Magnitude) (p : ℤ) : 0 < x.denominator p := by
  unfold denominator
  positivity

theorem step_eq (x : Magnitude) (p : ℤ) : ((x.units p).1 : ℚ) = 10 ^ p * x.denominator p := by
  have h := pow_toNat 10 (by norm_num) p
  simp only [units, denominator, Nat.pow_eq, Nat.cast_mul, Nat.cast_pow]
  rw [h]
  push_cast
  ring

theorem unit_eq (x : Magnitude) (p : ℤ) :
    ((x.units p).2 : ℚ) = x.quarter * x.denominator p := by
  have h := pow_toNat 2 (by norm_num) (x.exponent - 2)
  simp only [units, quarter, denominator, Nat.pow_eq, Nat.cast_mul, Nat.cast_pow]
  rw [h]
  push_cast
  ring

theorem step_pos (x : Magnitude) (p : ℤ) : 0 < (x.units p).1 := by
  have h : (0 : ℚ) < (x.units p).1 := by
    rw [step_eq]
    exact mul_pos (zpow_pos (by norm_num) _) (x.denominator_pos p)
  exact_mod_cast h

/-- Comparing multiples of the two units compares multiples of the grid step and a quarter. -/
theorem mul_unit_le {a b : ℕ} :
    a * (x.units p).2 ≤ b * (x.units p).1 ↔ a * x.quarter ≤ b * (10 : ℚ) ^ p := by
  rw [← Nat.cast_le (α := ℚ), Nat.cast_mul, Nat.cast_mul, step_eq, unit_eq, ← mul_assoc,
    ← mul_assoc, mul_le_mul_iff_left₀ (x.denominator_pos p)]

theorem mul_step_le {a b : ℕ} :
    b * (x.units p).1 ≤ a * (x.units p).2 ↔ b * (10 : ℚ) ^ p ≤ a * x.quarter := by
  rw [← Nat.cast_le (α := ℚ), Nat.cast_mul, Nat.cast_mul, step_eq, unit_eq, ← mul_assoc,
    ← mul_assoc, mul_le_mul_iff_left₀ (x.denominator_pos p)]

theorem admits_iff : x.admits p d = true ↔ x.StandsFor (d * 10 ^ p) := by
  unfold admits StandsFor
  by_cases hc : x.closed = true
  · simp only [if_pos hc, Bool.and_eq_true, decide_eq_true_eq, mul_unit_le, mul_step_le]
  · simp only [if_neg hc, Bool.and_eq_true, decide_eq_true_eq, ← not_le, mul_unit_le,
      mul_step_le]

theorem below_le (x : Magnitude) (p : ℤ) : x.below p * (10 : ℚ) ^ p ≤ x.value := by
  rw [← scaled_mul_quarter, ← mul_step_le]
  exact Nat.div_mul_le_self _ _

theorem lt_below (x : Magnitude) (p : ℤ) : x.value < (x.below p + 1) * (10 : ℚ) ^ p := by
  have h : ¬ (x.below p + 1) * (x.units p).1 ≤ x.scaled * (x.units p).2 :=
    not_le.mpr ((Nat.div_lt_iff_lt_mul (x.step_pos p)).mp (Nat.lt_succ_self (x.below p)))
  rw [mul_step_le, scaled_mul_quarter, not_le] at h
  exact_mod_cast h

end Magnitude

/-! ## Magnitudes of doubles -/

structure Represented (m : ℕ) (q : ℤ) : Prop where
  pos : 0 < m
  lt : m < 2 ^ 53
  least : leastExponent ≤ q
  most : q ≤ 971
  normal : q = leastExponent ∨ hiddenBit ≤ m

namespace Represented

variable {m m' : ℕ} {q q' : ℤ} {v v' : ℚ}

theorem two_pow_le_low (h : Represented m q) (hq : leastExponent < q) :
    2 ^ 54 - 1 ≤ (magnitude m q).low := by
  have hm : hiddenBit ≤ m := h.normal.resolve_left hq.ne'
  have hb : hiddenBit = 2 ^ 52 := rfl
  by_cases he : m = hiddenBit
  · simp only [Magnitude.low, Magnitude.scaled, magnitude, he, hb, beq_self_eq_true, hq,
      decide_true, Bool.and_self, if_true]
    norm_num
  · simp only [Magnitude.low, Magnitude.scaled, magnitude, beq_eq_false_iff_ne.mpr he,
      Bool.false_and, Bool.false_eq_true, if_false]
    omega

theorem high_le (h : Represented m q) : (magnitude m q).high ≤ 2 ^ 55 - 2 := by
  have := h.lt
  simp only [Magnitude.high, Magnitude.scaled, magnitude]
  omega

theorem high_lt_of_closed (h : Represented m q) (hc : (magnitude m q).closed = true) :
    (magnitude m q).high < 2 ^ 55 - 2 := by
  have := h.lt
  simp only [Magnitude.closed, magnitude, beq_iff_eq] at hc
  simp only [Magnitude.high, Magnitude.scaled, magnitude]
  omega

/-- The interval of the smaller of two doubles ends where that of the larger one begins, or
before. Two closed intervals have no end in common. -/
theorem ends_le (h : Represented m q) (h' : Represented m' q')
    (hlt : q < q' ∨ q = q' ∧ m < m') :
    (magnitude m q).high * (magnitude m q).quarter ≤
        (magnitude m' q').low * (magnitude m' q').quarter ∧
      ((magnitude m q).closed = true → (magnitude m' q').closed = true →
        (magnitude m q).high * (magnitude m q).quarter <
          (magnitude m' q').low * (magnitude m' q').quarter) := by
  have hu := (magnitude m q).quarter_pos
  rcases hlt with hq | ⟨rfl, hm⟩
  · -- across binades: one end is at most `(2^55 - 2)` quarters, the other at least that
    have hlow : ((2 ^ 55 - 2 : ℕ) : ℚ) * (magnitude m q).quarter ≤
        (magnitude m' q').low * (magnitude m' q').quarter := by
      have hl : ((2 ^ 54 - 1 : ℕ) : ℚ) ≤ (magnitude m' q').low :=
        Nat.cast_le.mpr (h'.two_pow_le_low (h.least.trans_lt hq))
      have hu' : 2 * (magnitude m q).quarter ≤ (magnitude m' q').quarter := by
        have h2 : (2 : ℚ) ^ (q - 2 + 1) ≤ 2 ^ (q' - 2) :=
          zpow_le_zpow_right₀ one_le_two (by omega)
        rwa [zpow_add_one₀ two_ne_zero, mul_comm] at h2
      calc ((2 ^ 55 - 2 : ℕ) : ℚ) * (magnitude m q).quarter
          = (2 ^ 54 - 1 : ℕ) * (2 * (magnitude m q).quarter) := by norm_num; ring
        _ ≤ (magnitude m' q').low * (magnitude m' q').quarter :=
          mul_le_mul hl hu' (by positivity) (Nat.cast_nonneg _)
    refine ⟨le_trans ?_ hlow, fun hc _ => lt_of_lt_of_le ?_ hlow⟩
    · exact mul_le_mul_of_nonneg_right (Nat.cast_le.mpr h.high_le) hu.le
    · exact mul_lt_mul_of_pos_right (Nat.cast_lt.mpr (h.high_lt_of_closed hc)) hu
  · -- within a binade: neighbours share an end, and one of them is odd
    have hl : 4 * m' ≤ (magnitude m' q).low + 2 := (magnitude m' q).scaled_le_low
    have hh : (magnitude m q).high = 4 * m + 2 := rfl
    refine ⟨mul_le_mul_of_nonneg_right (Nat.cast_le.mpr (by omega)) hu.le, fun hc hc' => ?_⟩
    refine mul_lt_mul_of_pos_right (Nat.cast_lt.mpr ?_) hu
    simp only [Magnitude.closed, magnitude, beq_iff_eq] at hc hc'
    omega

theorem standsFor_lt (h : Represented m q) (h' : Represented m' q')
    (hlt : q < q' ∨ q = q' ∧ m < m') (hv : (magnitude m q).StandsFor v)
    (hv' : (magnitude m' q').StandsFor v') : v < v' := by
  obtain ⟨hle, hclosed⟩ := h.ends_le h' hlt
  have hhigh := hv.le_high
  have hlow := hv'.low_le
  refine lt_of_le_of_ne (hhigh.trans (hle.trans hlow)) fun heq => ?_
  have hc := hv.closed_of_eq_high (le_antisymm hhigh ((hle.trans hlow).trans heq.ge))
  have hc' := hv'.closed_of_eq_low (le_antisymm ((heq.ge.trans hhigh).trans hle) hlow)
  exact absurd (hhigh.trans_lt ((hclosed hc hc').trans_le hlow)) (heq ▸ lt_irrefl v)

theorem unique (h : Represented m q) (h' : Represented m' q')
    (hv : (magnitude m q).StandsFor v) (hv' : (magnitude m' q').StandsFor v) :
    m = m' ∧ q = q' := by
  rcases lt_trichotomy q q' with hq | hq | hq
  · exact absurd (h.standsFor_lt h' (.inl hq) hv hv') (lt_irrefl v)
  · rcases lt_trichotomy m m' with hm | hm | hm
    · exact absurd (h.standsFor_lt h' (.inr ⟨hq, hm⟩) hv hv') (lt_irrefl v)
    · exact ⟨hm, hq⟩
    · exact absurd (h'.standsFor_lt h (.inr ⟨hq.symm, hm⟩) hv' hv) (lt_irrefl v)
  · exact absurd (h'.standsFor_lt h (.inl hq) hv' hv) (lt_irrefl v)

end Represented

end IndexedStore.Number
