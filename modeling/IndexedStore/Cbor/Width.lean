import IndexedStore.Number.MulAdd

/-! # Floats of other widths

Halves and singles beside doubles. `narrow` rounds a double to a format and
`widen` reads a double back; a format holds a double when nothing is lost.
-/

namespace IndexedStore.Cbor

open Float.Model (UnpackedFloat Format)

/-- Eleven binary digits and five exponent bits. -/
abbrev half : Format where
  mantissaBitsWithoutImplicit := 10
  exponentBits := 5

abbrev single : Format := Format.binary32

def rounded (spec : Format) : UnpackedFloat → UnpackedFloat
  | .finite s m q _ => UnpackedFloat.round spec s m q
  | u => u

def narrow (spec : Format) (x : Float) : BitVec spec.numBits :=
  UnpackedFloat.pack spec (rounded spec (Number.parts x))

def widen (spec : Format) (b : BitVec spec.numBits) : Float :=
  let u := rounded Format.binary64 (UnpackedFloat.unpack spec b)
  Float.ofBits (UInt64.ofBitVec (UnpackedFloat.pack Format.binary64 u))

def holds (spec : Format) (x : Float) : Bool :=
  (widen spec (narrow spec x)).toBits == x.toBits

end IndexedStore.Cbor
