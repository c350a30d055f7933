import IndexedStore.Number.FloatText

/-! # Fused multiplication and addition

`mulAdd x y z` is `x * y + z` rounded once: for finite operands the product and
the sum are taken exactly in integers and only the result is rounded to the
nearest double, a tie to the even mantissa.
-/

namespace IndexedStore.Number

open Float.Model (UnpackedFloat Format)

/-- The double nearest to `m · 2^q`. -/
def nearest (m : Int) (q : Int) : Float :=
  let rounded := UnpackedFloat.normalize Format.binary64 m q .positive
  Float.ofBits (UInt64.ofBitVec (UnpackedFloat.pack Format.binary64 rounded))

def mulAdd (x y z : Float) : Float :=
  match parts x, parts y, parts z with
  | .finite s₁ m₁ e₁ _, .finite s₂ m₂ e₂ _, .finite s₃ m₃ e₃ _ =>
    let e := min (e₁ + e₂) e₃
    let product : Int := s₁.apply m₁ * s₂.apply m₂ * Nat.pow 2 (e₁ + e₂ - e).toNat
    nearest (product + s₃.apply m₃ * Nat.pow 2 (e₃ - e).toNat) e
  | .finite .., .finite .., .infinity _ => z
  | _, _, _ => x * y + z

end IndexedStore.Number
