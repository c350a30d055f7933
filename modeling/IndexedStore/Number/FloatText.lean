import IndexedStore.Number.Shortest

/-! # Floats as text

Two spellings of a double, both of its shortest decimal: `plainText` is always
positional and drops an empty fraction, `debugText` keeps at least one fraction
digit and turns to an exponent from `10^16` up and below `10^-4`.
-/

namespace IndexedStore.Number

open Float.Model (UnpackedFloat Format)

/-- The exact reading of a double. -/
def parts (x : Float) : UnpackedFloat :=
  UnpackedFloat.unpack Format.binary64 x.toBits.toBitVec

/-- The mantissa of the smallest normal numbers of each binade. -/
def hiddenBit : Nat := Nat.pow 2 52

def leastExponent : Int := -1074

def magnitude (m : Nat) (q : Int) : Magnitude :=
  ⟨m, q, m == hiddenBit && q > leastExponent⟩

namespace Decimal

/-- The place of the leading digit: `0` for the units. -/
def leading (d : Decimal) : Int := (digitList d.digits).length - 1 + d.exponent

/-- Digits before and after the point, without an exponent. -/
def positional (d : Decimal) : List Char × List Char :=
  let ds := digitList d.digits
  if 0 ≤ d.exponent then (ds ++ List.replicate d.exponent.toNat '0', [])
  else
    let n := (-d.exponent).toNat
    if n < ds.length then ds.splitAt (ds.length - n)
    else (['0'], List.replicate (n - ds.length) '0' ++ ds)

def plain (d : Decimal) : List Char :=
  match d.positional with
  | (whole, []) => whole
  | (whole, fraction) => whole ++ '.' :: fraction

def pointed (d : Decimal) : List Char :=
  match d.positional with
  | (whole, []) => whole ++ ['.', '0']
  | (whole, fraction) => whole ++ '.' :: fraction

def scientific (d : Decimal) : List Char :=
  let ds := digitList d.digits
  let fraction := match ds.tail with
    | [] => []
    | t => '.' :: t
  ds.take 1 ++ fraction ++ 'e' :: (toString d.leading).toList

def debug (d : Decimal) : List Char :=
  if 16 ≤ d.leading || d.leading < -4 then d.scientific else d.pointed

end Decimal

def signed (s : Float.Model.UnpackedFloat.Sign) (l : List Char) : String :=
  String.ofList (match s with
    | .positive => l
    | .negative => '-' :: l)

def plainText (x : Float) : String :=
  match parts x with
  | .notANumber => "NaN"
  | .infinity s => signed s ['i', 'n', 'f']
  | .zero s => signed s ['0']
  | .finite s m q _ => signed s (magnitude m q).shortest.plain

def debugText (x : Float) : String :=
  match parts x with
  | .notANumber => "NaN"
  | .infinity s => signed s ['i', 'n', 'f']
  | .zero s => signed s ['0', '.', '0']
  | .finite s m q _ => signed s (magnitude m q).shortest.debug

end IndexedStore.Number
