import IndexedStore.Proofs.Number.Interval

/-! # Numbers read from their text

`numeral` reads a text as positional notation with an optional sign and point. It reads the
positional text of a decimal as the value of the decimal, and the text of an integer as the
integer.
-/
namespace IndexedStore.Number

open Float.Model.UnpackedFloat (Sign)

/-- The number that digits with an optional point among them spell. -/
def unsigned (l : List Char) : ℚ :=
  let whole := l.takeWhile (· != '.')
  let fraction := (l.dropWhile (· != '.')).tail
  Nat.ofDigitChars 10 (whole ++ fraction) 0 / 10 ^ fraction.length

/-- The number that a text spells. -/
def numeral (s : String) : ℚ :=
  match s.toList with
  | '-' :: l => -unsigned l
  | l => unsigned l

/-! ## Signs -/

def factor : Sign → ℚ
  | .positive => 1
  | .negative => -1

def signOf (i : ℤ) : Sign := if i < 0 then .negative else .positive

theorem factor_signOf_mul (i : ℤ) : factor (signOf i) * i.natAbs = i := by
  unfold signOf
  rw [Nat.cast_natAbs]
  split
  · rename_i hneg
    rw [factor, abs_of_neg hneg, Int.cast_neg, neg_one_mul, neg_neg]
  · rename_i hpos
    rw [factor, abs_of_nonneg (not_lt.mp hpos), one_mul]

theorem factor_mul_ne_zero (s : Sign) {a : ℚ} (ha : 0 < a) : factor s * a ≠ 0 := by
  cases s <;> simp [factor, ha.ne']

theorem abs_factor_mul (s : Sign) {a : ℚ} (ha : 0 < a) : |factor s * a| = a := by
  cases s with
  | positive => rw [factor, one_mul, abs_of_pos ha]
  | negative => rw [factor, neg_one_mul, abs_neg, abs_of_pos ha]

theorem factor_mul_inj {s t : Sign} {a b : ℚ} (ha : 0 < a) (hb : 0 < b) :
    factor s * a = factor t * b ↔ s = t ∧ a = b := by
  have hne : a ≠ -b := by linarith
  have hne' : -a ≠ b := by linarith
  cases s <;> cases t <;> simp [factor, hne, hne']

theorem factor_mul_eq_intCast {s : Sign} {a : ℚ} (ha : 0 < a) {i : ℤ} :
    factor s * a = i ↔ s = signOf i ∧ a = i.natAbs := by
  rw [← factor_signOf_mul i]
  rcases Nat.eq_zero_or_pos i.natAbs with h0 | hpos
  · simp [h0, factor_mul_ne_zero s ha, ha.ne']
  · have hpos' : (0 : ℚ) < i.natAbs := Nat.cast_pos.mpr hpos
    exact factor_mul_inj ha hpos'

/-! ## Digits -/

theorem unsigned_whole {w : List Char} (hw : '.' ∉ w) :
    unsigned w = Nat.ofDigitChars 10 w 0 := by
  have hall : ∀ c ∈ w, (c != '.') = true := fun c hc =>
    bne_iff_ne.mpr fun he => hw (he ▸ hc)
  rw [unsigned, List.takeWhile_eq_self_iff.mpr hall, List.dropWhile_eq_nil_iff.mpr hall]
  simp

theorem unsigned_point {w f : List Char} (hw : '.' ∉ w) :
    unsigned (w ++ '.' :: f) = Nat.ofDigitChars 10 (w ++ f) 0 / 10 ^ f.length := by
  have hall : ∀ c ∈ w, (c != '.') = true := fun c hc =>
    bne_iff_ne.mpr fun he => hw (he ▸ hc)
  rw [unsigned, List.takeWhile_append_of_pos hall, List.dropWhile_append_of_pos hall]
  simp

theorem isDigit_of_mem_digitList {n : ℕ} {c : Char} (h : c ∈ digitList n) : c.isDigit = true :=
  Nat.isDigit_of_mem_toDigits (by norm_num) le_rfl h

theorem unsigned_digitList (n : ℕ) : unsigned (digitList n) = n := by
  rw [unsigned_whole fun h => absurd (isDigit_of_mem_digitList h) (by decide), digitList,
    Nat.ofDigitChars_ten_toDigits]

theorem digitList_mul_pow {n : ℕ} (hn : 0 < n) (k : ℕ) :
    digitList (n * 10 ^ k) = digitList n ++ List.replicate k '0' := by
  induction k with
  | zero => simp
  | succ k ih =>
    have hpos : 0 < n * 10 ^ k := by positivity
    have hle : 10 ≤ n * 10 ^ k * 10 := by omega
    rw [pow_succ, ← mul_assoc, digitList, Nat.toDigits_of_base_le (by norm_num) hle,
      Nat.mul_div_cancel _ (by norm_num), Nat.mul_mod_left, ← digitList, ih,
      List.replicate_succ', List.append_assoc]
    rfl

theorem numeral_signed (s : Sign) {l : List Char} (hl : '-' ∉ l) :
    numeral (signed s l) = factor s * unsigned l := by
  cases s with
  | negative => simp [numeral, signed, factor]
  | positive =>
    simp only [numeral, signed, String.toList_ofList, factor, one_mul]
    split
    · exact absurd List.mem_cons_self hl
    · rfl

theorem toString_eq_signed (i : ℤ) : toString i = signed (signOf i) (digitList i.natAbs) := by
  unfold signOf
  cases i with
  | ofNat n =>
    have hn : ¬ Int.ofNat n < 0 := not_lt.mpr (Int.natCast_nonneg n)
    rw [if_neg hn]
    exact Nat.toString_eq_ofList_toDigits
  | negSucc n =>
    have htext : toString (Int.negSucc n) = "-" ++ toString (n + 1) := rfl
    rw [if_pos (Int.negSucc_lt_zero n), htext, Nat.toString_eq_ofList_toDigits,
      ← String.toList_inj, String.toList_append]
    simp [signed, digitList]

theorem numeral_toString (i : ℤ) : numeral (toString i) = i := by
  have hdash : '-' ∉ digitList i.natAbs := fun h =>
    absurd (isDigit_of_mem_digitList h) (by decide)
  rw [toString_eq_signed, numeral_signed _ hdash, unsigned_digitList, factor_signOf_mul]

namespace Decimal

variable {d : Decimal}

/-- The point stands behind the digits, among them or in front of them. -/
theorem positional_cases (d : Decimal) :
    (∃ k : ℕ, d.exponent = k ∧
      d.positional = (digitList d.digits ++ List.replicate k '0', [])) ∨
    (∃ k : ℕ, d.exponent = -k ∧ k < (digitList d.digits).length ∧
      d.positional = ((digitList d.digits).take ((digitList d.digits).length - k),
        (digitList d.digits).drop ((digitList d.digits).length - k))) ∨
    (∃ k : ℕ, d.exponent = -k ∧ (digitList d.digits).length ≤ k ∧
      d.positional =
        (['0'], List.replicate (k - (digitList d.digits).length) '0' ++ digitList d.digits)) := by
  rcases le_or_gt 0 d.exponent with he | he
  · refine .inl ⟨d.exponent.toNat, (Int.toNat_of_nonneg he).symm, ?_⟩
    simp only [positional, if_pos he]
  · refine .inr ?_
    rcases lt_or_ge (-d.exponent).toNat (digitList d.digits).length with hlt | hge
    · refine .inl ⟨(-d.exponent).toNat, by omega, hlt, ?_⟩
      simp only [positional, if_neg (not_le.mpr he), if_pos hlt, List.splitAt_eq]
    · refine .inr ⟨(-d.exponent).toNat, by omega, hge, ?_⟩
      simp only [positional, if_neg (not_le.mpr he), if_neg (not_lt.mpr hge)]

theorem isDigit_of_mem_positional {c : Char}
    (h : c ∈ d.positional.1 ++ d.positional.2) : c.isDigit = true := by
  have hzero {n : ℕ} (hc : c ∈ List.replicate n '0') : c.isDigit = true := by
    rw [List.eq_of_mem_replicate hc]
    rfl
  rcases d.positional_cases with ⟨k, -, hp⟩ | ⟨k, -, -, hp⟩ | ⟨k, -, -, hp⟩
  · rw [hp, List.append_nil] at h
    exact (List.mem_append.mp h).elim isDigit_of_mem_digitList hzero
  · rw [hp, List.take_append_drop] at h
    exact isDigit_of_mem_digitList h
  · rw [hp, List.singleton_append, ← List.cons_append, ← List.replicate_succ] at h
    exact (List.mem_append.mp h).elim hzero isDigit_of_mem_digitList

theorem positional_value (d : Decimal) :
    (Nat.ofDigitChars 10 (d.positional.1 ++ d.positional.2) 0 : ℚ) /
      10 ^ d.positional.2.length = d.value := by
  have hdigits : Nat.ofDigitChars 10 (digitList d.digits) 0 = d.digits :=
    Nat.ofDigitChars_ten_toDigits
  rcases d.positional_cases with ⟨k, hk, hp⟩ | ⟨k, hk, hlt, hp⟩ | ⟨k, hk, hle, hp⟩
  · rw [hp, value, hk, List.append_nil, Nat.ofDigitChars_append, hdigits,
      Nat.ofDigitChars_replicate_zero, zpow_natCast]
    simp [mul_comm]
  · rw [hp, value, hk, List.take_append_drop, hdigits, List.length_drop,
      Nat.sub_sub_self hlt.le, zpow_neg, zpow_natCast, div_eq_mul_inv]
  · rw [hp, value, hk, List.singleton_append, ← List.cons_append, ← List.replicate_succ,
      Nat.ofDigitChars_append, Nat.ofDigitChars_replicate_zero, mul_zero, hdigits,
      List.length_append, List.length_replicate, Nat.sub_add_cancel hle, zpow_neg,
      zpow_natCast, div_eq_mul_inv]

theorem plain_eq (d : Decimal) : d.plain = d.positional.1 ∧ d.positional.2 = [] ∨
    d.plain = d.positional.1 ++ '.' :: d.positional.2 := by
  unfold plain
  split
  · rename_i h
    simp [h]
  · rename_i h
    simp [h]

theorem unsigned_plain (d : Decimal) : unsigned d.plain = d.value := by
  have hpoint : '.' ∉ d.positional.1 := fun h =>
    absurd (isDigit_of_mem_positional (List.mem_append_left _ h)) (by decide)
  have hvalue := d.positional_value
  rcases d.plain_eq with ⟨hplain, hnil⟩ | hplain
  · rw [hnil] at hvalue
    rw [hplain, unsigned_whole hpoint, ← hvalue]
    simp
  · rw [hplain, unsigned_point hpoint, hvalue]

theorem dash_not_mem_plain (d : Decimal) : '-' ∉ d.plain := by
  have hdash {l : List Char} (hl : ∀ c ∈ l, c ∈ d.positional.1 ++ d.positional.2) : '-' ∉ l :=
    fun h => absurd (isDigit_of_mem_positional (hl _ h)) (by decide)
  have hwhole : '-' ∉ d.positional.1 := hdash fun _ => List.mem_append_left _
  have hfraction : '-' ∉ d.positional.2 := hdash fun _ => List.mem_append_right _
  rcases d.plain_eq with ⟨hplain, -⟩ | hplain
  · rwa [hplain]
  · rw [hplain]
    simp [hwhole, hfraction]

theorem numeral_signed_plain (s : Sign) (d : Decimal) :
    numeral (signed s d.plain) = factor s * d.value := by
  rw [numeral_signed s d.dash_not_mem_plain, unsigned_plain]

/-- A natural value is written like the natural number unless the decimal has a fraction. -/
theorem plain_eq_digitList (hd : 0 < d.digits) (he : 0 ≤ d.exponent) {n : ℕ}
    (hn : d.value = n) : d.plain = digitList n := by
  obtain ⟨k, hk⟩ := Int.eq_ofNat_of_zero_le he
  obtain rfl : d.digits * 10 ^ k = n := by
    rw [value, hk, zpow_natCast] at hn
    exact_mod_cast hn
  rw [digitList_mul_pow hd]
  simp [plain, positional, hk]

end Decimal

end IndexedStore.Number
