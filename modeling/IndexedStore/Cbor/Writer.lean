import IndexedStore.Cbor.Item
import IndexedStore.Cbor.Width

/-! # Writing items

Counts and integers take the fewest bytes that hold them, floats the narrowest
format that reads back as the same double.
-/

namespace IndexedStore.Cbor

def head (major n : Nat) (tail : Bytes) : Bytes :=
  if n < 24 then UInt8.ofNat (32 * major + n) :: tail
  else if n < 0x100 then UInt8.ofNat (32 * major + 24) :: (bigEndian 1 n ++ tail)
  else if n < 0x10000 then UInt8.ofNat (32 * major + 25) :: (bigEndian 2 n ++ tail)
  else if n < 0x100000000 then UInt8.ofNat (32 * major + 26) :: (bigEndian 4 n ++ tail)
  else UInt8.ofNat (32 * major + 27) :: (bigEndian 8 n ++ tail)

def writeFloat (x : Float) (tail : Bytes) : Bytes :=
  if holds half x then 0xf9 :: (bigEndian 2 (narrow half x).toNat ++ tail)
  else if holds single x then 0xfa :: (bigEndian 4 (narrow single x).toNat ++ tail)
  else 0xfb :: (bigEndian 8 x.toBits.toNat ++ tail)

namespace Item

mutual

def write : Item → Bytes → Bytes
  | unsigned n, tail => head 0 n.toNat tail
  | negative n, tail => head 1 n.toNat tail
  | bytes b, tail => head 2 b.length (b ++ tail)
  | text s, tail =>
    let b := utf8 s
    head 3 b.length (b ++ tail)
  | array items, tail => head 4 items.length (writeItems items tail)
  | map _ entries, tail => head 5 entries.length (writeEntries entries tail)
  | tagged n i, tail => head 6 n.toNat (i.write tail)
  | bool b, tail => (if b then 0xf5 else 0xf4) :: tail
  | null, tail => 0xf6 :: tail
  | undefined, tail => 0xf7 :: tail
  | float x, tail => writeFloat x tail

def writeItems : List Item → Bytes → Bytes
  | [], tail => tail
  | i :: items, tail => i.write (writeItems items tail)

def writeEntries : List (Item × Item) → Bytes → Bytes
  | [], tail => tail
  | (k, v) :: entries, tail => k.write (v.write (writeEntries entries tail))

end

/-- A map of fewer than 24 entries is written with its count in the initial byte. -/
def object (entries : List (Item × Item)) : Item := .map (entries.length < 24) entries

def record (fields : List (String × Item)) : Item :=
  object (fields.map fun f => (.text f.1, f.2))

/-- A variant that carries something: its name leads to it. -/
def variant (name : String) (payload : Item) : Item := record [(name, payload)]

def option {α : Type} (f : α → Item) : Option α → Item
  | some a => f a
  | none => null

def texts (l : List String) : Item := .array (l.map .text)

end Item

end IndexedStore.Cbor
