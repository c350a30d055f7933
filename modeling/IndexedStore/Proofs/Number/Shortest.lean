import IndexedStore.Proofs.Number.Interval

/-! # The shortest decimal of a magnitude

Among the decimals that round to a magnitude the search finds one on the coarsest grid that has
any, and there the nearest one. For magnitudes of doubles the grids it visits suffice.
-/
namespace IndexedStore.Number

/-! ## Powers of two and of ten -/

theorem pow_le_pow_of_bases {a b : ℚ} {k t m n : ℕ} (ha : 0 ≤ a) (hb : 1 ≤ b) (hm : m ≠ 0)
    (h : a ^ m ≤ b ^ n) (hkt : n * k ≤ m * t) : a ^ k ≤ b ^ t := by
  have hb0 : 0 ≤ b := zero_le_one.trans hb
  rw [← pow_le_pow_iff_left₀ (pow_nonneg ha k) (pow_nonneg hb0 t) hm]
  calc (a ^ k) ^ m = (a ^ m) ^ k := by rw [← pow_mul, ← pow_mul, mul_comm]
    _ ≤ (b ^ n) ^ k := pow_le_pow_left₀ (pow_nonneg ha m) h k
    _ = b ^ (n * k) := (pow_mul b n k).symm
    _ ≤ b ^ (m * t) := pow_le_pow_right₀ hb hkt
    _ = (b ^ t) ^ m := by rw [← pow_mul, mul_comm]

/-- `2^93 ≤ 10^28` and `10^59 ≤ 2^196` enclose the logarithm of two closely enough for doubles. -/
theorem two_zpow_le_ten_zpow {k t : ℤ} (h : 28 * k ≤ 93 * t) (h' : 59 * k ≤ 196 * t) :
    (2 : ℚ) ^ k ≤ 10 ^ t := by
  rcases le_or_gt 0 k with hk | hk
  · lift k to ℕ using hk
    lift t to ℕ using by omega
    rw [zpow_natCast, zpow_natCast]
    exact pow_le_pow_of_bases (m := 93) (n := 28) two_pos.le (by norm_num) (by norm_num)
      (by norm_num) (by omega)
  rcases le_or_gt 0 t with ht | ht
  · exact (zpow_le_one_of_nonpos₀ one_le_two hk.le).trans (one_le_zpow₀ (by norm_num) ht)
  · obtain ⟨a, rfl⟩ : ∃ a : ℕ, k = -a := ⟨k.natAbs, by omega⟩
    obtain ⟨b, rfl⟩ : ∃ b : ℕ, t = -b := ⟨t.natAbs, by omega⟩
    rw [zpow_neg, zpow_neg, zpow_natCast, zpow_natCast]
    refine inv_anti₀ (by positivity) ?_
    exact pow_le_pow_of_bases (m := 59) (n := 196) (by norm_num) one_le_two (by norm_num)
      (by norm_num) (by omega)

theorem ten_zpow_le_two_zpow {k t : ℤ} (h : 93 * t ≤ 28 * k) (h' : 196 * t ≤ 59 * k) :
    (10 : ℚ) ^ t ≤ 2 ^ k := by
  have hinv := two_zpow_le_ten_zpow (k := -k) (t := -t) (by omega) (by omega)
  rw [zpow_neg, zpow_neg] at hinv
  exact (inv_le_inv₀ (zpow_pos two_pos k) (zpow_pos (by norm_num) t)).mp hinv

theorem ten_zpow_pos (p : ℤ) : (0 : ℚ) < 10 ^ p := zpow_pos (by norm_num) p

namespace Magnitude

variable {x : Magnitude} {p : ℤ} {d : ℕ}

/-! ## One grid -/

/-- Of the points of the grid `10^p` that round to the magnitude, `d` steps are nearest to it,
and the upper of two that are equally near. -/
def NearestOn (x : Magnitude) (p : ℤ) (d : ℕ) : Prop :=
  x.StandsFor (d * 10 ^ p) ∧ ∀ n : ℕ, x.StandsFor (n * 10 ^ p) →
    |x.value - d * 10 ^ p| < |x.value - n * 10 ^ p| ∨
      |x.value - d * 10 ^ p| = |x.value - n * 10 ^ p| ∧ n ≤ d

theorem NearestOn.unique {d' : ℕ} (h : x.NearestOn p d) (h' : x.NearestOn p d') : d = d' := by
  rcases h.2 d' h'.1 with hlt | ⟨heq, hle⟩
  · rcases h'.2 d h.1 with hlt' | ⟨heq', -⟩
    · exact absurd (hlt.trans hlt') (lt_irrefl _)
    · exact absurd heq' hlt.ne'
  · rcases h'.2 d h.1 with hlt' | ⟨-, hle'⟩
    · exact absurd heq hlt'.ne'
    · exact le_antisymm hle' hle

theorem admits_below (hx : 0 < x.mantissa) (h : x.StandsFor (d * 10 ^ p)) (hd : d ≤ x.below p) :
    x.admits p (x.below p) = true := by
  refine admits_iff.mpr (h.between (standsFor_value hx) ?_ (x.below_le p))
  exact mul_le_mul_of_nonneg_right (Nat.cast_le.mpr hd) (ten_zpow_pos p).le

theorem admits_above (hx : 0 < x.mantissa) (h : x.StandsFor (d * 10 ^ p)) (hd : x.below p < d) :
    x.admits p (x.below p + 1) = true := by
  have hle : ((x.below p + 1 : ℕ) : ℚ) ≤ d := Nat.cast_le.mpr hd
  refine admits_iff.mpr ((standsFor_value hx).between h ?_ ?_)
  · rw [Nat.cast_succ]
    exact (x.lt_below p).le
  · exact mul_le_mul_of_nonneg_right hle (ten_zpow_pos p).le

theorem onGrid_eq (x : Magnitude) (p : ℤ) : x.onGrid p =
    match x.admits p (x.below p), x.admits p (x.below p + 1) with
    | true, true =>
      some (if (2 * x.below p + 1) * (x.units p).1 ≤ 2 * (x.scaled * (x.units p).2)
        then x.below p + 1 else x.below p)
    | true, false => some (x.below p)
    | false, true => some (x.below p + 1)
    | false, false => none := rfl

/-- No point of the grid rounds to the magnitude unless one of its two neighbours there does. -/
theorem onGrid_eq_none_iff (hx : 0 < x.mantissa) :
    x.onGrid p = none ↔ ∀ n : ℕ, ¬ x.StandsFor (n * 10 ^ p) := by
  rw [onGrid_eq]
  constructor
  · intro h n hn
    rcases le_or_gt n (x.below p) with hle | hgt
    · simp only [admits_below hx hn hle] at h
      cases hup : x.admits p (x.below p + 1) <;> simp [hup] at h
    · simp only [admits_above hx hn hgt] at h
      cases hlow : x.admits p (x.below p) <;> simp [hlow] at h
  · intro h
    have hno : ∀ n, x.admits p n = false := fun n =>
      Bool.eq_false_iff.mpr fun hn => h n (admits_iff.mp hn)
    simp only [hno]

theorem abs_below_le {n : ℕ} (hn : n ≤ x.below p) :
    |x.value - x.below p * 10 ^ p| ≤ |x.value - n * 10 ^ p| := by
  have hb := x.below_le p
  have hle : (n : ℚ) * 10 ^ p ≤ x.below p * 10 ^ p :=
    mul_le_mul_of_nonneg_right (Nat.cast_le.mpr hn) (ten_zpow_pos p).le
  rw [abs_of_nonneg (by linarith), abs_of_nonneg (by linarith)]
  linarith

theorem abs_above_lt {n : ℕ} (hn : x.below p + 1 < n) :
    |x.value - (x.below p + 1 : ℕ) * 10 ^ p| < |x.value - n * 10 ^ p| := by
  have hb := x.lt_below p
  have hlt : ((x.below p + 1 : ℕ) : ℚ) * 10 ^ p < n * 10 ^ p :=
    mul_lt_mul_of_pos_right (Nat.cast_lt.mpr hn) (ten_zpow_pos p)
  rw [Nat.cast_succ] at hlt ⊢
  rw [abs_of_nonpos (by linarith), abs_of_nonpos (by linarith)]
  linarith

/-- The test for the upper neighbour compares the distances of the two. -/
theorem twice_step_le_iff :
    (2 * x.below p + 1) * (x.units p).1 ≤ 2 * (x.scaled * (x.units p).2) ↔
      |x.value - (x.below p + 1 : ℕ) * 10 ^ p| ≤ |x.value - x.below p * 10 ^ p| := by
  have hb := x.below_le p
  have ha := x.lt_below p
  rw [← mul_assoc, mul_step_le, Nat.cast_succ (x.below p), abs_of_nonpos (by linarith),
    abs_of_nonneg (by linarith)]
  push_cast
  rw [mul_assoc 2 (x.scaled : ℚ), scaled_mul_quarter]
  constructor <;> intro h <;> linarith

theorem nearestOn_below (hx : 0 < x.mantissa) (h : x.admits p (x.below p) = true)
    (hup : x.admits p (x.below p + 1) = true →
      |x.value - x.below p * 10 ^ p| < |x.value - (x.below p + 1 : ℕ) * 10 ^ p|) :
    x.NearestOn p (x.below p) := by
  refine ⟨admits_iff.mp h, fun n hn => ?_⟩
  rcases le_or_gt n (x.below p) with hle | hgt
  · rcases (abs_below_le hle).lt_or_eq with hlt | heq
    · exact .inl hlt
    · exact .inr ⟨heq, hle⟩
  · have hnext := hup (admits_above hx hn hgt)
    rcases (Nat.succ_le_of_lt hgt).eq_or_lt with rfl | hlt
    · exact .inl hnext
    · exact .inl (hnext.trans (abs_above_lt hlt))

theorem nearestOn_above (hx : 0 < x.mantissa) (h : x.admits p (x.below p + 1) = true)
    (hlow : x.admits p (x.below p) = true →
      |x.value - (x.below p + 1 : ℕ) * 10 ^ p| ≤ |x.value - x.below p * 10 ^ p|) :
    x.NearestOn p (x.below p + 1) := by
  refine ⟨admits_iff.mp h, fun n hn => ?_⟩
  rcases le_or_gt n (x.below p) with hle | hgt
  · have hnext := (hlow (admits_below hx hn hle)).trans (abs_below_le hle)
    rcases hnext.lt_or_eq with hlt | heq
    · exact .inl hlt
    · exact .inr ⟨heq, hle.trans (Nat.le_succ _)⟩
  · rcases (Nat.succ_le_of_lt hgt).eq_or_lt with rfl | hlt
    · exact .inr ⟨rfl, le_rfl⟩
    · exact .inl (abs_above_lt hlt)

theorem nearestOn_onGrid (hx : 0 < x.mantissa) (h : x.onGrid p = some d) :
    x.NearestOn p d := by
  rw [onGrid_eq] at h
  split at h
  · rename_i hlow hup
    rw [Option.some.injEq] at h
    subst h
    split
    · rename_i hnear
      exact nearestOn_above hx hup fun _ => twice_step_le_iff.mp hnear
    · rename_i hfar
      exact nearestOn_below hx hlow fun _ => lt_of_not_ge fun hge =>
        hfar (twice_step_le_iff.mpr hge)
  · rename_i hlow hup
    cases h
    exact nearestOn_below hx hlow fun h => absurd (hup.symm.trans h) Bool.false_ne_true
  · rename_i hlow hup
    cases h
    exact nearestOn_above hx hup fun h => absurd (hlow.symm.trans h) Bool.false_ne_true
  · cases h

theorem onGrid_eq_some_iff (hx : 0 < x.mantissa) : x.onGrid p = some d ↔ x.NearestOn p d := by
  refine ⟨nearestOn_onGrid hx, fun h => ?_⟩
  cases he : x.onGrid p with
  | none => exact absurd h.1 ((onGrid_eq_none_iff hx).mp he d)
  | some e => rw [(nearestOn_onGrid hx he).unique h]

/-! ## The search -/

theorem search_spec {n : ℕ} (h : ∃ r, p - n < r ∧ r ≤ p ∧ x.onGrid r ≠ none) :
    x.onGrid (x.search p n).exponent = some (x.search p n).digits ∧
      ∀ r, (x.search p n).exponent < r → r ≤ p → x.onGrid r = none := by
  induction n generalizing p with
  | zero =>
    obtain ⟨r, hlow, hle, -⟩ := h
    omega
  | succ n ih =>
    unfold search
    split
    · rename_i d hd
      exact ⟨hd, fun r hlt hle => absurd (hlt.trans_le hle) (lt_irrefl p)⟩
    · rename_i hnone
      obtain ⟨r, hlow, hle, hr⟩ := h
      have hne : r ≠ p := fun he => hr (he ▸ hnone)
      obtain ⟨hhit, hmiss⟩ := ih (p := p - 1) ⟨r, by omega, by omega, hr⟩
      refine ⟨hhit, fun r hlt hle => ?_⟩
      rcases hle.eq_or_lt with rfl | hlt'
      · exact hnone
      · exact hmiss r hlt (by omega)

/-- `d` rounds to the magnitude, it is nearest to it among the points of its grid that do, and
no point of a coarser grid does. -/
structure IsShortest (x : Magnitude) (d : Decimal) : Prop where
  nearest : x.NearestOn d.exponent d.digits
  coarsest : ∀ p, d.exponent < p → ∀ n : ℕ, ¬ x.StandsFor (n * 10 ^ p)

theorem IsShortest.stands {d : Decimal} (h : x.IsShortest d) : x.StandsFor d.value := h.nearest.1

theorem IsShortest.unique {d d' : Decimal} (h : x.IsShortest d) (h' : x.IsShortest d') :
    d = d' := by
  obtain ⟨m, p⟩ := d
  obtain ⟨m', p'⟩ := d'
  rcases lt_trichotomy p p' with hlt | rfl | hlt
  · exact absurd h'.stands (h.coarsest p' hlt m')
  · exact congrArg (Decimal.mk · p) (h.nearest.unique h'.nearest)
  · exact absurd h.stands (h'.coarsest p hlt m)

end Magnitude

namespace Represented

open Magnitude

variable {m : ℕ} {q : ℤ}

/-- The interval ends below the first grid of the search. -/
theorem high_lt_top (h : Represented m q) :
    (magnitude m q).high * (magnitude m q).quarter < (10 : ℚ) ^ (magnitude m q).topGrid := by
  have hhigh : (magnitude m q).high < 2 ^ (m.log2 + 3) := by
    have hm := Nat.lt_log2_self (n := m)
    simp only [high, scaled, magnitude]
    rw [pow_succ] at hm
    rw [pow_add]
    omega
  have hq := h.least
  have hq' := h.most
  have hl : m.log2 < 53 := (Nat.log2_lt h.pos.ne').mpr h.lt
  calc (magnitude m q).high * (magnitude m q).quarter
      < (2 ^ (m.log2 + 3) : ℕ) * (magnitude m q).quarter :=
        mul_lt_mul_of_pos_right (Nat.cast_lt.mpr hhigh) (magnitude m q).quarter_pos
    _ = 2 ^ ((m.log2 : ℤ) + 1 + q) := by
        rw [quarter, Nat.cast_pow, Nat.cast_ofNat, ← zpow_natCast, ← zpow_add₀ two_ne_zero]
        congr 1
        simp only [magnitude]
        omega
    _ ≤ 10 ^ (magnitude m q).topGrid := by
        simp only [leastExponent] at hq
        refine two_zpow_le_ten_zpow ?_ ?_ <;> simp only [topGrid, magnitude] <;> omega

/-- The last grid of the search is finer than a quarter of the last binary place. -/
theorem last_grid_le (h : Represented m q) :
    (10 : ℚ) ^ ((magnitude m q).topGrid - 23) ≤ (magnitude m q).quarter := by
  have hq := h.least
  have hq' := h.most
  have hl : m.log2 < 53 := (Nat.log2_lt h.pos.ne').mpr h.lt
  simp only [leastExponent] at hq
  refine ten_zpow_le_two_zpow ?_ ?_ <;> simp only [topGrid, magnitude] <;> omega

theorem onGrid_coarse (h : Represented m q) {p : ℤ} (hp : (magnitude m q).topGrid ≤ p) :
    (magnitude m q).onGrid p = none := by
  refine (onGrid_eq_none_iff h.pos).mpr fun n hn => ?_
  have hpos : (0 : ℚ) < n * 10 ^ p := hn.pos h.pos
  have hn1 : (1 : ℚ) ≤ n := Nat.one_le_cast.mpr (Nat.pos_of_ne_zero fun h0 => by simp [h0] at hpos)
  have htop : (10 : ℚ) ^ (magnitude m q).topGrid ≤ n * 10 ^ p :=
    (zpow_le_zpow_right₀ (by norm_num) hp).trans (le_mul_of_one_le_left (ten_zpow_pos p).le hn1)
  exact absurd (hn.le_high.trans_lt h.high_lt_top) (not_lt.mpr htop)

theorem onGrid_fine (h : Represented m q) :
    (magnitude m q).onGrid ((magnitude m q).topGrid - 23) ≠ none := by
  intro hnone
  have hgrid := h.last_grid_le
  generalize (magnitude m q).topGrid - 23 = p at hnone hgrid
  refine (onGrid_eq_none_iff h.pos).mp hnone ((magnitude m q).below p + 1) ?_
  have hbelow := (magnitude m q).below_le p
  have habove := (magnitude m q).lt_below p
  have hvalue := (magnitude m q).scaled_mul_quarter
  have hlow : ((magnitude m q).low : ℚ) * (magnitude m q).quarter ≤ (magnitude m q).value :=
    ((magnitude m q).standsFor_value h.pos).low_le
  have hhigh : ((magnitude m q).high : ℚ) * (magnitude m q).quarter =
      (magnitude m q).value + 2 * (magnitude m q).quarter := by
    rw [high, Nat.cast_add, add_mul, hvalue]
    norm_num
  have hu := (magnitude m q).quarter_pos
  rw [Nat.cast_succ]
  refine standsFor_of_lt (hlow.trans_lt habove) ?_
  linarith

/-- The search finds the shortest decimal of every positive double. -/
theorem isShortest_shortest (h : Represented m q) :
    (magnitude m q).IsShortest (magnitude m q).shortest := by
  obtain ⟨hhit, hmiss⟩ := search_spec (x := magnitude m q) (p := (magnitude m q).topGrid)
    (n := 24) ⟨_, by omega, by omega, h.onGrid_fine⟩
  refine ⟨(onGrid_eq_some_iff h.pos).mp hhit, fun p hp => (onGrid_eq_none_iff h.pos).mp ?_⟩
  rcases le_or_gt p (magnitude m q).topGrid with hle | hgt
  · exact hmiss p hp hle
  · exact h.onGrid_coarse hgt.le

theorem isShortest_iff (h : Represented m q) {d : Decimal} :
    (magnitude m q).IsShortest d ↔ (magnitude m q).shortest = d :=
  ⟨h.isShortest_shortest.unique, fun he => he ▸ h.isShortest_shortest⟩

end Represented

end IndexedStore.Number
