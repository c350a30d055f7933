/-! # Shortest decimals

A binary magnitude `m · 2^q` stands for every real that rounds to it. Among the
decimals in that interval `shortest` takes one on the coarsest power-of-ten grid
that has any, and of two such neighbours the nearer one, a tie going up.
-/

namespace IndexedStore.Number

/-- The positive decimal `digits · 10^exponent`. -/
structure Decimal where
  digits : Nat
  exponent : Int
deriving DecidableEq, Repr

/-- The positive magnitude `mantissa · 2^exponent` and the reals that round to it.
The lower neighbour is half as far as the upper one when `tightBelow` holds. -/
structure Magnitude where
  mantissa : Nat
  exponent : Int
  tightBelow : Bool
deriving DecidableEq, Repr

namespace Magnitude

/-- Four times the mantissa: in this unit the ends of the interval are whole. -/
def scaled (x : Magnitude) : Nat := 4 * x.mantissa

def low (x : Magnitude) : Nat := x.scaled - (if x.tightBelow then 1 else 2)

def high (x : Magnitude) : Nat := x.scaled + 2

/-- Both ends of the interval belong to it exactly for an even mantissa. -/
def closed (x : Magnitude) : Bool := x.mantissa % 2 == 0

/-- One step of the grid `10^p` and one unit of `scaled`, over a common denominator. -/
def units (x : Magnitude) (p : Int) : Nat × Nat :=
  let q := x.exponent - 2
  (Nat.pow 10 p.toNat * Nat.pow 2 (-q).toNat, Nat.pow 10 (-p).toNat * Nat.pow 2 q.toNat)

/-- Whether `d` steps of the grid `10^p` round to the magnitude. -/
def admits (x : Magnitude) (p : Int) (d : Nat) : Bool :=
  let (step, unit) := x.units p
  if x.closed then x.low * unit ≤ d * step && d * step ≤ x.high * unit
  else x.low * unit < d * step && d * step < x.high * unit

/-- The last grid point at or below the magnitude. -/
def below (x : Magnitude) (p : Int) : Nat :=
  let (step, unit) := x.units p
  x.scaled * unit / step

/-- The point of the grid `10^p` that stands for the magnitude, if one does. -/
def onGrid (x : Magnitude) (p : Int) : Option Nat :=
  let d := x.below p
  let (step, unit) := x.units p
  match x.admits p d, x.admits p (d + 1) with
  | true, true => some (if (2 * d + 1) * step ≤ 2 * (x.scaled * unit) then d + 1 else d)
  | true, false => some d
  | false, true => some (d + 1)
  | false, false => none

/-- The first hit among the grids `10^p`, `10^(p-1)`, … -/
def search (x : Magnitude) (p : Int) : Nat → Decimal
  | 0 => ⟨x.below p, p⟩
  | n + 1 =>
    match x.onGrid p with
    | some d => ⟨d, p⟩
    | none => search x (p - 1) n

/-- A power of ten above the interval: `30103 / 100000` exceeds the logarithm of two. -/
def topGrid (x : Magnitude) : Int :=
  (Nat.log2 x.mantissa + 2 + x.exponent) * 30103 / 100000 + 1

/-- Twenty-four grids suffice: a magnitude has at most 53 binary digits. -/
def shortest (x : Magnitude) : Decimal := search x x.topGrid 24

end Magnitude

def digitList (n : Nat) : List Char := Nat.toDigits 10 n

end IndexedStore.Number
