/-! # Data items

The concise binary object representation: integers, texts, arrays, maps and the
rest, as a tree. `Item.write` puts an item in front of the bytes that follow it, so
that no written part is copied again.
-/

namespace IndexedStore

abbrev Bytes := List UInt8

namespace Cbor

inductive Item where
  | unsigned (n : UInt64)
  /-- The integer `-1 - n`. -/
  | negative (n : UInt64)
  | bytes (b : Bytes)
  | text (s : String)
  | array (items : List Item)
  /-- A map is `short` when its count stands in the initial byte. -/
  | map (short : Bool) (entries : List (Item × Item))
  | tagged (tag : UInt64) (item : Item)
  | bool (b : Bool)
  | null
  | undefined
  | float (x : Float)
deriving Inhabited

def utf8 (s : String) : Bytes := s.toUTF8.data.toList

def utf8? (b : Bytes) : Option String := String.fromUTF8? ⟨b.toArray⟩

/-- The last `k` base-256 digits of `n`, most significant first. -/
def bigEndian : Nat → Nat → Bytes
  | 0, _ => []
  | k + 1, n => bigEndian k (n / 256) ++ [UInt8.ofNat n]

def fromBigEndian (b : Bytes) : Nat := b.foldl (fun n d => 256 * n + d.toNat) 0

end Cbor

end IndexedStore
