import Mathlib
import IndexedStore.Number.Saturating

/-! # Counts in numbers

A sum or product of counts is that of the numbers, or the largest word where it lies beyond.
-/
namespace IndexedStore.Number

theorem toNat_ofNatClamp (n : Nat) : (UInt64.ofNatClamp n).toNat = min n (2 ^ 64 - 1) := by
  by_cases h : n < 2 ^ 64
  · rw [UInt64.toNat_ofNatClamp_of_lt h]
    omega
  · rw [UInt64.toNat_ofNatClamp_of_le (Nat.not_lt.mp h)]
    have hsize : UInt64.size = 2 ^ 64 := rfl
    omega

theorem toNat_satAdd (a b : UInt64) : (satAdd a b).toNat = min (a.toNat + b.toNat) (2 ^ 64 - 1) :=
  toNat_ofNatClamp _

theorem toNat_satMul (a b : UInt64) : (satMul a b).toNat = min (a.toNat * b.toNat) (2 ^ 64 - 1) :=
  toNat_ofNatClamp _

/-- The second count is the first with so much added to it, as far as a word goes. -/
def Grows (x : UInt64) (n : Nat) (y : UInt64) : Prop := y.toNat = min (x.toNat + n) (2 ^ 64 - 1)

theorem grows_satAdd (x y : UInt64) : Grows x y.toNat (satAdd x y) := toNat_satAdd x y

theorem Grows.refl (x : UInt64) : Grows x 0 x := by
  have := x.toNat_lt
  unfold Grows
  omega

theorem Grows.trans {x y z : UInt64} {m n : Nat} (h : Grows x m y) (h' : Grows y n z) :
    Grows x (m + n) z := by
  unfold Grows at *
  omega

end IndexedStore.Number
