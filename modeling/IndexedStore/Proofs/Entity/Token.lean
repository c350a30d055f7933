import IndexedStore.Entity.Value
import IndexedStore.Proofs.Number.Double

/-! # Tokens of numbers

The token of a number is the text of its shortest decimal, one sign of zero folded away. Main
statement: tokens tell finite doubles apart as `==` does, and a double shares the token of an
integer exactly when it is shown as it, which below `2^54` means that it is that integer.
-/
namespace IndexedStore

open Number

namespace Value

open Float.Model.UnpackedFloat (Sign)

variable {x y : Float} {i : Int64} {s : Sign} {m : ℕ} {q : ℤ} {hm : 0 < m}

theorem token?_of_zero (h : parts x = .zero s) : (float x).token? = some "0" := by
  have hfin : x.isFinite = true := congrArg Float.Model.UnpackedFloat.isFinite h
  have hzero : (x == 0) = true := (beq_iff hfin).mpr (.inr ⟨⟨s, h⟩, .positive, rfl⟩)
  rw [token?, if_pos hfin, if_pos hzero]
  rfl

theorem token?_of_finite (h : parts x = .finite s m q hm) :
    (float x).token? = some (signed s (magnitude m q).shortest.plain) := by
  have hfin : x.isFinite = true := congrArg Float.Model.UnpackedFloat.isFinite h
  have hzero : ¬ (x == 0) = true := by
    rw [beq_iff hfin, h]
    rintro (heq | ⟨⟨s, hs⟩, -⟩)
    · cases (heq : _ = Float.Model.UnpackedFloat.zero .positive)
    · cases hs
  rw [token?, if_pos hfin, if_neg hzero, plainText, h]

theorem exists_token?_float (h : x.isFinite = true) :
    ∃ t, (float x).token? = some t ∧ numeral t = shown x := by
  rcases finite_cases h with ⟨s, hx⟩ | ⟨s, m, q, hm, hx⟩
  · refine ⟨"0", token?_of_zero hx, ?_⟩
    rw [shown_of_zero hx]
    exact (numeral_toString 0).trans Int.cast_zero
  · have hplain : (float x).token? = some (plainText x) := by
      rw [token?_of_finite hx, plainText, hx]
    exact ⟨plainText x, hplain, numeral_plainText h⟩

theorem token?_float_eq_iff (hx : x.isFinite = true) (hy : y.isFinite = true) :
    (float x).token? = (float y).token? ↔ (x == y) = true := by
  constructor
  · intro h
    obtain ⟨t, ht, hnx⟩ := exists_token?_float hx
    obtain ⟨u, hu, hny⟩ := exists_token?_float hy
    rw [ht, hu, Option.some.injEq] at h
    rw [← shown_eq_shown_iff hx hy, ← hnx, ← hny, h]
  · rw [beq_iff hx]
    rintro (hparts | ⟨⟨s, hs⟩, t, ht⟩)
    · rcases finite_cases hx with ⟨s, hs⟩ | ⟨s, m, q, hm, hs⟩
      · rw [token?_of_zero hs, token?_of_zero (hparts ▸ hs)]
      · rw [token?_of_finite hs, token?_of_finite (hparts ▸ hs)]
    · rw [token?_of_zero hs, token?_of_zero ht]

/-- A double shares the token of an integer exactly when it is shown as that integer. -/
theorem token?_int_eq_iff (hx : x.isFinite = true) :
    (int i).token? = (float x).token? ↔ shown x = i.toInt := by
  have hint : (int i).token? = some (toString i.toInt) := rfl
  constructor
  · intro h
    obtain ⟨t, ht, hn⟩ := exists_token?_float hx
    rw [hint, ht, Option.some.injEq] at h
    rw [← hn, ← h, numeral_toString]
  · intro h
    rcases finite_cases hx with ⟨s, hs⟩ | ⟨s, m, q, hm, hs⟩
    · rw [shown_of_zero hs] at h
      have hi : i.toInt = 0 := by exact_mod_cast h.symm
      rw [hint, token?_of_zero hs, hi]
      rfl
    · have hr := represented_of_parts hs
      have hshort := hr.isShortest_shortest
      rw [shown_of_finite hs, factor_mul_eq_intCast hr.shortest_pos] at h
      obtain ⟨rfl, hvalue⟩ := h
      have he := hshort.exponent_nonneg (hvalue ▸ hshort.stands)
      rw [hint, token?_of_finite hs, toString_eq_signed,
        Decimal.plain_eq_digitList hr.shortest_digits_pos he hvalue]

end Value

/-- Two finite doubles share their token exactly when they are equal. A finite double shares it
with an integer exactly when it is shown as that integer: when the decimal that rounds to it,
on the coarsest grid that has any and nearest to it there, with its sign, is the integer. If
either of the two is less than `2^54` in absolute value, this is when they are the same number. -/
theorem number_tokens {f g : Float} (hf : f.isFinite = true) (hg : g.isFinite = true)
    (i : Int64) :
    ((Value.float f).token? = (Value.float g).token? ↔ (f == g) = true) ∧
    ((Value.int i).token? = (Value.float f).token? ↔ shown f = i.toInt) ∧
    ((∃ s, parts f = .zero s) → rational f = 0 ∧ shown f = 0) ∧
    (∀ s m q hm, parts f = .finite s m q hm →
      rational f = factor s * (m * 2 ^ q) ∧ ∀ d : Decimal, (magnitude m q).IsShortest d →
        shown f = factor s * (d.digits * 10 ^ d.exponent)) ∧
    (|rational f| < 2 ^ 54 ∨ |i.toInt| < 2 ^ 54 →
      ((Value.int i).token? = (Value.float f).token? ↔ rational f = i.toInt)) := by
  refine ⟨Value.token?_float_eq_iff hf hg, Value.token?_int_eq_iff hf, ?_, ?_, ?_⟩
  · rintro ⟨s, hs⟩
    exact ⟨rational_of_zero hs, shown_of_zero hs⟩
  · intro s m q hm hs
    refine ⟨rational_of_finite hs, fun d hd => ?_⟩
    rw [shown_of_finite hs, (represented_of_parts hs).isShortest_iff.mp hd]
    rfl
  · intro hsmall
    rw [Value.token?_int_eq_iff hf, shown_eq_intCast_iff hf hsmall]

/-- `1.0` shares its token with `1` and not with `2`, the two zeros share theirs. -/
theorem small_number_tokens :
    (Value.int 1).token? = (Value.float 1.0).token? ∧
      (Value.int 2).token? ≠ (Value.float 1.0).token? ∧
      (Value.float 0.0).token? = (Value.float (-0.0)).token? := by
  have hfin : (1.0 : Float).isFinite = true := rfl
  have hone : rational 1.0 = 1 := by
    obtain ⟨-, -, -, hparts, -⟩ := number_tokens hfin hfin 1
    rw [(hparts .positive 4503599627370496 (-52) (by norm_num) rfl).1]
    norm_num [factor]
  have hints (i : Int64) :
      (Value.int i).token? = (Value.float 1.0).token? ↔ (1 : ℚ) = i.toInt := by
    have hsmall : |rational 1.0| < 2 ^ 54 := by
      rw [hone]
      norm_num
    rw [(number_tokens hfin hfin i).2.2.2.2 (.inl hsmall), hone]
  refine ⟨(hints 1).mpr (by decide), fun h => absurd ((hints 2).mp h) (by decide), ?_⟩
  exact (number_tokens (f := 0.0) (g := -0.0) rfl rfl 0).1.mpr rfl

/-- The double `2^60` is shown as `1152921504606847000`: it has the token of that integer and
not the one of the integer that it is. -/
theorem large_double_token :
    let f := Float.ofBits 0x43B0000000000000
    f.isFinite = true ∧
      ¬ ((Value.int 1152921504606846976).token? = (Value.float f).token? ↔
        rational f = (1152921504606846976 : Int64).toInt) ∧
      ¬ ((Value.int 1152921504606847000).token? = (Value.float f).token? ↔
        rational f = (1152921504606847000 : Int64).toInt) := by
  have hvalue : rational (Float.ofBits 0x43B0000000000000) = 1152921504606846976 := by
    have hparts : parts (Float.ofBits 0x43B0000000000000) =
      .finite .positive 4503599627370496 8 (by norm_num) := rfl
    rw [rational_of_finite hparts]
    norm_num [factor, magnitude, Magnitude.value]
  have hexact : (1152921504606846976 : Int64).toInt = 1152921504606846976 := by decide
  have hround : (1152921504606847000 : Int64).toInt = 1152921504606847000 := by decide
  have hdiffers : (Value.int 1152921504606846976).token? ≠
      (Value.float (Float.ofBits 0x43B0000000000000)).token? := by decide +kernel
  have hshares : (Value.int 1152921504606847000).token? =
      (Value.float (Float.ofBits 0x43B0000000000000)).token? := by decide +kernel
  dsimp only
  rw [hvalue, hexact, hround]
  refine ⟨rfl, fun h => hdiffers (h.mpr (by norm_num)), fun h => ?_⟩
  have hfalse := h.mp hshares
  norm_num at hfalse

end IndexedStore
