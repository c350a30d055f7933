import IndexedStore.Proofs.Number.Numeral
import IndexedStore.Proofs.Number.Shortest

/-! # Finite doubles

A finite double is a signed zero or a sign and a magnitude. `rational` is the number it is and
`shown` the number its text spells, a shortest decimal. Main statement: the two agree on integers
below `2^54`.
-/
namespace IndexedStore.Number

open Float.Model (UnpackedFloat Format)
open Float.Model.UnpackedFloat (Sign)

/-! ## Integers that round to a magnitude -/

namespace Magnitude

variable {x : Magnitude} {d : Decimal}

/-- Of the multiples of the last binary place only the magnitude itself rounds to it. -/
theorem StandsFor.eq_value_of_multiple {n : ℕ} (h : x.StandsFor (n * 2 ^ x.exponent)) :
    (n : ℚ) * 2 ^ x.exponent = x.value := by
  have hu := x.quarter_pos
  have hn : (n : ℚ) * 2 ^ x.exponent = (4 * n : ℕ) * x.quarter := by
    rw [quarter, zpow_sub₀ two_ne_zero]
    push_cast
    ring
  have hlow := h.low_le
  have hhigh := h.le_high
  rw [hn, mul_le_mul_iff_left₀ hu, Nat.cast_le] at hlow hhigh
  have hscaled := x.scaled_le_low
  obtain rfl : n = x.mantissa := by
    simp only [high, scaled] at *
    omega
  rfl

theorem StandsFor.eq_value_of_exponent_nonpos {n : ℕ} (hx : x.exponent ≤ 0)
    (h : x.StandsFor n) : x.value = n := by
  obtain ⟨k, hk⟩ : ∃ k : ℕ, x.exponent = -k := ⟨x.exponent.natAbs, by omega⟩
  have hmul : ((n * 2 ^ k : ℕ) : ℚ) * 2 ^ x.exponent = n := by
    rw [hk, zpow_neg, zpow_natCast]
    push_cast
    field_simp
  rw [← eq_value_of_multiple (hmul.symm ▸ h), hmul]

theorem StandsFor.eq_value_of_even {n : ℕ} (hx : x.exponent = 1) (hn : Even n)
    (h : x.StandsFor n) : x.value = n := by
  obtain ⟨j, rfl⟩ := hn.two_dvd
  have hmul : (j : ℚ) * 2 ^ x.exponent = (2 * j : ℕ) := by
    rw [hx]
    push_cast
    ring
  rw [← eq_value_of_multiple (hmul.symm ▸ h), hmul]

theorem IsShortest.value_eq (hd : x.IsShortest d) (hx : 0 < x.mantissa) {n : ℕ}
    (hn : x.value = n * 10 ^ d.exponent) : d.value = x.value := by
  have hstands : x.StandsFor (n * 10 ^ d.exponent) := hn ▸ standsFor_value hx
  have hle : |x.value - d.value| ≤ |x.value - n * 10 ^ d.exponent| :=
    (hd.nearest.2 n hstands).elim le_of_lt fun h => h.1.le
  rw [← hn, sub_self, abs_zero, abs_nonpos_iff, sub_eq_zero] at hle
  exact hle.symm

theorem IsShortest.value_eq_of_units (hd : x.IsShortest d) (hx : 0 < x.mantissa)
    (hq : 0 ≤ x.exponent) (he : d.exponent = 0) : d.value = x.value := by
  obtain ⟨k, hk⟩ := Int.eq_ofNat_of_zero_le hq
  refine hd.value_eq hx (n := x.mantissa * 2 ^ k) ?_
  rw [he, value, hk]
  simp

/-- A magnitude that some natural number rounds to is shown without a fraction. -/
theorem IsShortest.exponent_nonneg (hd : x.IsShortest d) {n : ℕ} (hn : x.StandsFor n) :
    0 ≤ d.exponent := by
  by_contra hneg
  exact hd.coarsest 0 (not_le.mp hneg) n (by simpa using hn)

end Magnitude

namespace Decimal

theorem exists_value_eq_natCast {d : Decimal} (he : 0 ≤ d.exponent) :
    ∃ n : ℕ, d.value = n := by
  obtain ⟨k, hk⟩ := Int.eq_ofNat_of_zero_le he
  exact ⟨d.digits * 10 ^ k, by rw [value, hk, zpow_natCast]; push_cast; rfl⟩

theorem even_of_value_eq {d : Decimal} (he : 0 < d.exponent) {n : ℕ} (hn : d.value = n) :
    Even n := by
  obtain ⟨k, hk⟩ := Int.eq_ofNat_of_zero_le he.le
  obtain rfl : d.digits * 10 ^ k = n := by
    rw [value, hk, zpow_natCast] at hn
    exact_mod_cast hn
  have heven : Even (10 ^ k) := (by decide : Even 10).pow_of_ne_zero (by omega)
  exact heven.mul_left _

end Decimal

namespace Represented

open Magnitude

variable {m : ℕ} {q : ℤ} {d : Decimal}

theorem value_pos (h : Represented m q) : 0 < (magnitude m q).value :=
  (standsFor_value h.pos).pos h.pos

theorem shortest_pos (h : Represented m q) : 0 < (magnitude m q).shortest.value :=
  h.isShortest_shortest.stands.pos h.pos

theorem shortest_digits_pos (h : Represented m q) : 0 < (magnitude m q).shortest.digits := by
  have hpos := h.shortest_pos
  refine Nat.pos_of_ne_zero fun h0 => ?_
  simp [Decimal.value, h0] at hpos

/-- Below `2^54` the last binary place is at most two. -/
theorem exponent_le_one (h : Represented m q) (hsmall : (magnitude m q).value < 2 ^ 54) :
    q ≤ 1 := by
  by_contra hq
  have hm : hiddenBit ≤ m := h.normal.resolve_left (by unfold leastExponent; omega)
  have hpow : (2 : ℚ) ^ (2 : ℤ) ≤ 2 ^ q := zpow_le_zpow_right₀ one_le_two (by omega)
  have hm' : (2 : ℚ) ^ 52 ≤ m := by exact_mod_cast hm
  have hle : (2 : ℚ) ^ 52 * 2 ^ (2 : ℤ) ≤ m * 2 ^ q :=
    mul_le_mul hm' hpow (by positivity) (by positivity)
  refine absurd hsmall (not_lt.mpr (le_trans ?_ hle))
  norm_num

/-- From `2^54` on everything that rounds to a double is at least `2^54 - 1`. -/
theorem le_of_standsFor (h : Represented m q) (hq : 2 ≤ q) {n : ℕ}
    (hn : (magnitude m q).StandsFor n) : 2 ^ 54 - 1 ≤ n := by
  have hl := h.two_pow_le_low (by unfold leastExponent; omega)
  have hu : (1 : ℚ) ≤ (magnitude m q).quarter := one_le_zpow₀ one_le_two (by simp [magnitude, hq])
  have hle : ((magnitude m q).low : ℚ) ≤ n :=
    (le_mul_of_one_le_right (Nat.cast_nonneg _) hu).trans hn.low_le
  exact hl.trans (Nat.cast_le.mp hle)

theorem value_eq_of_shown (h : Represented m q) (hd : (magnitude m q).IsShortest d) {n : ℕ}
    (hn : d.value = n) (hsmall : (magnitude m q).value < 2 ^ 54 ∨ n < 2 ^ 54) :
    (magnitude m q).value = n := by
  have hstands : (magnitude m q).StandsFor n := hn ▸ hd.stands
  rcases le_or_gt q 0 with hq | hq
  · exact hstands.eq_value_of_exponent_nonpos hq
  rcases (hd.exponent_nonneg hstands).eq_or_lt with he | he
  · rw [← hd.value_eq_of_units h.pos hq.le he.symm, hn]
  -- on a grid of tens an even number is shown, and `2^54 - 1` is odd
  have heven := Decimal.even_of_value_eq he hn
  rcases le_or_gt q 1 with hq1 | hq2
  · exact hstands.eq_value_of_even (le_antisymm hq1 hq) heven
  · have hlow := h.le_of_standsFor hq2 hstands
    have hlt : n < 2 ^ 54 := hsmall.resolve_left fun hv =>
      absurd (h.exponent_le_one hv) (not_le.mpr hq2)
    obtain ⟨j, rfl⟩ := heven.two_dvd
    omega

/-- Below `2^54` a double is shown as a natural number exactly when it is that number. -/
theorem shown_eq_iff (h : Represented m q) (hd : (magnitude m q).IsShortest d) {n : ℕ}
    (hsmall : (magnitude m q).value < 2 ^ 54 ∨ n < 2 ^ 54) :
    d.value = n ↔ (magnitude m q).value = n := by
  refine ⟨fun hn => h.value_eq_of_shown hd hn hsmall, fun hn => ?_⟩
  have hlt : (magnitude m q).value < 2 ^ 54 := hsmall.elim id fun hlt => by
    rw [hn]
    exact_mod_cast hlt
  have hstands : (magnitude m q).StandsFor n := hn ▸ standsFor_value h.pos
  obtain ⟨k, hk⟩ := Decimal.exists_value_eq_natCast (hd.exponent_nonneg hstands)
  rw [hk, ← h.value_eq_of_shown hd hk (.inl hlt), hn]

end Represented

/-! ## Doubles -/

def rational (x : Float) : ℚ :=
  match parts x with
  | .finite s m q _ => factor s * (magnitude m q).value
  | _ => 0

/-- The number that the text of a finite double spells. -/
def shown (x : Float) : ℚ :=
  match parts x with
  | .finite s m q _ => factor s * (magnitude m q).shortest.value
  | _ => 0

variable {x y : Float} {s t : Sign} {m n : ℕ} {q r : ℤ} {hm : 0 < m} {hn : 0 < n}

theorem represented_of_parts (h : parts x = .finite s m q hm) : Represented m q := by
  unfold parts UnpackedFloat.unpack at h
  generalize x.toBits.toBitVec = b at h
  have hmantissa : (@UnpackedFloat.unpackMantissa .binary64 b).toNat < 2 ^ 52 :=
    (@UnpackedFloat.unpackMantissa .binary64 b).isLt
  have hexponent : (@UnpackedFloat.unpackExponent .binary64 b).toNat < 2 ^ 11 :=
    (@UnpackedFloat.unpackExponent .binary64 b).isLt
  dsimp only at h
  split at h
  · split at h <;> cases h
  rename_i hmax
  split at h
  · rename_i hzero
    split at h
    · cases h
    · -- subnormal: no hidden bit, the least exponent
      cases h
      rw [hzero]
      exact ⟨hm, by omega, le_refl leastExponent, by decide, .inl rfl⟩
  · rename_i hzero
    cases h
    have hpos : (@UnpackedFloat.unpackExponent .binary64 b).toNat ≠ 0 :=
      fun h0 => hzero (BitVec.eq_of_toNat_eq h0)
    have hmost : (@UnpackedFloat.unpackExponent .binary64 b).toNat ≠ 2047 :=
      fun h0 => hmax (BitVec.eq_of_toNat_eq h0)
    have hhidden : (1#1 ++ @UnpackedFloat.unpackMantissa .binary64 b).toNat =
        2 ^ 52 + (@UnpackedFloat.unpackMantissa .binary64 b).toNat := by
      rw [BitVec.toNat_append, ← Nat.shiftLeft_add_eq_or_of_lt hmantissa]
      rfl
    have hbias : (Format.binary64.exponentBias : ℤ) + Format.binary64.mantissaBitsWithoutImplicit
        = 1075 := rfl
    have hbit : hiddenBit = 2 ^ 52 := rfl
    have hleast : leastExponent = -1074 := rfl
    rw [hhidden, hbias]
    exact ⟨by omega, by omega, by omega, by omega, .inr (by omega)⟩

theorem finite_cases (h : x.isFinite = true) :
    (∃ s, parts x = .zero s) ∨ ∃ s m q hm, parts x = .finite s m q hm := by
  have hparts : (parts x).isFinite = true := h
  cases hp : parts x with
  | notANumber => simp [hp, UnpackedFloat.isFinite] at hparts
  | infinity s => simp [hp, UnpackedFloat.isFinite] at hparts
  | zero s => exact .inl ⟨s, rfl⟩
  | finite s m q hm => exact .inr ⟨s, m, q, hm, rfl⟩

theorem beq_iff (hx : x.isFinite = true) : (x == y) = true ↔
    parts x = parts y ∨ (∃ s, parts x = .zero s) ∧ ∃ t, parts y = .zero t := by
  have hbeq : (x == y) = (parts x).beq (parts y) := rfl
  rw [hbeq, UnpackedFloat.beq_iff_ne_notANumber_and_eq]
  rcases finite_cases hx with ⟨s, hx⟩ | ⟨s, m, q, hm, hx⟩
  · cases hy : parts y with
    | zero t => cases s <;> cases t <;> simp [hx]
    | _ => simp [hx]
  · cases hy : parts y <;> simp [hx]

theorem shown_of_zero (h : parts x = .zero s) : shown x = 0 := by
  rw [shown, h]

theorem rational_of_zero (h : parts x = .zero s) : rational x = 0 := by
  rw [rational, h]

theorem shown_of_finite (h : parts x = .finite s m q hm) :
    shown x = factor s * (magnitude m q).shortest.value := by
  rw [shown, h]

theorem rational_of_finite (h : parts x = .finite s m q hm) :
    rational x = factor s * (magnitude m q).value := by
  rw [rational, h]

theorem numeral_plainText (h : x.isFinite = true) : numeral (plainText x) = shown x := by
  rcases finite_cases h with ⟨s, hx⟩ | ⟨s, m, q, hm, hx⟩
  · have hzero : unsigned ['0'] = 0 := (unsigned_digitList 0).trans Nat.cast_zero
    rw [shown_of_zero hx, plainText, hx, numeral_signed s (by decide), hzero, mul_zero]
  · rw [shown_of_finite hx, plainText, hx, Decimal.numeral_signed_plain]

theorem shown_eq_shown_iff (hx : x.isFinite = true) (hy : y.isFinite = true) :
    shown x = shown y ↔ (x == y) = true := by
  rw [beq_iff hx]
  rcases finite_cases hx with ⟨s, hx⟩ | ⟨s, m, q, hm, hx⟩ <;>
    rcases finite_cases hy with ⟨t, hy⟩ | ⟨t, n, r, hn, hy⟩
  · simp [shown_of_zero hx, shown_of_zero hy, hx, hy]
  · have hne := factor_mul_ne_zero t (represented_of_parts hy).shortest_pos
    simp [shown_of_zero hx, shown_of_finite hy, hx, hy, hne.symm]
  · have hne := factor_mul_ne_zero s (represented_of_parts hx).shortest_pos
    simp [shown_of_finite hx, shown_of_zero hy, hx, hy, hne]
  · have hm' := represented_of_parts hx
    have hn' := represented_of_parts hy
    rw [shown_of_finite hx, shown_of_finite hy, factor_mul_inj hm'.shortest_pos hn'.shortest_pos,
      hx, hy]
    constructor
    · rintro ⟨rfl, hvalue⟩
      have hstands := hn'.isShortest_shortest.stands
      obtain ⟨rfl, rfl⟩ := hm'.unique hn' hm'.isShortest_shortest.stands (hvalue ▸ hstands)
      exact .inl rfl
    · simp only [UnpackedFloat.finite.injEq, reduceCtorEq, exists_false, and_false, or_false]
      rintro ⟨rfl, rfl, rfl⟩
      exact ⟨rfl, rfl⟩

theorem shown_eq_intCast_iff (h : x.isFinite = true) {i : ℤ}
    (hsmall : |rational x| < 2 ^ 54 ∨ |i| < 2 ^ 54) : shown x = i ↔ rational x = i := by
  rcases finite_cases h with ⟨s, hx⟩ | ⟨s, m, q, hm, hx⟩
  · rw [shown_of_zero hx, rational_of_zero hx]
  · have hr := represented_of_parts hx
    rw [rational_of_finite hx, abs_factor_mul s hr.value_pos] at hsmall
    rw [Int.abs_eq_natAbs] at hsmall
    rw [shown_of_finite hx, rational_of_finite hx, factor_mul_eq_intCast hr.shortest_pos,
      factor_mul_eq_intCast hr.value_pos,
      hr.shown_eq_iff hr.isShortest_shortest (hsmall.imp_right fun hi => by exact_mod_cast hi)]

end IndexedStore.Number
