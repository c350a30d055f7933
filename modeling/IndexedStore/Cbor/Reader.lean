import IndexedStore.Cbor.Item
import IndexedStore.Cbor.Width

/-! # Reading items

`readItem d` reads one item in which at most `d` containers lie inside one
another; tags count as containers. Integers may be longer than need be, and
texts, arrays and maps may be open-ended, closed by a stop byte.
-/

namespace IndexedStore.Cbor

/-- How many containers may lie inside one another. -/
def maxNesting : Nat := 127

/-- What follows the major type in an initial byte. -/
inductive Argument where
  | exactly (n : Nat)
  | openEnded

/-- The number in the next `k` bytes. -/
def readNat (k : Nat) (input : Bytes) : Option (Nat × Bytes) :=
  let b := input.take k
  if b.length = k then some (fromBigEndian b, input.drop k) else none

def readArgument (info : Nat) (input : Bytes) : Option (Argument × Bytes) :=
  let wide (k : Nat) := (readNat k input).map fun r => (Argument.exactly r.1, r.2)
  if info < 24 then some (.exactly info, input)
  else if info = 24 then wide 1
  else if info = 25 then wide 2
  else if info = 26 then wide 4
  else if info = 27 then wide 8
  else if info = 31 then some (.openEnded, input)
  else none

section Repeat

variable {α : Type} (read : Bytes → Option (α × Bytes))

def readExactly : Nat → List α → Bytes → Option (List α × Bytes)
  | 0, done, input => some (done.reverse, input)
  | n + 1, done, input =>
    match read input with
    | some (a, rest) => readExactly n (a :: done) rest
    | none => none

/-- Reads until the stop byte. Every element takes a byte, so there are no more
elements than `fuel`, the input to begin with, has bytes. -/
def readUntilStop : Bytes → List α → Bytes → Option (List α × Bytes)
  | [], _, _ => none
  | _ :: fuel, done, input =>
    match input with
    | 0xff :: rest => some (done.reverse, rest)
    | _ =>
      match read input with
      | some (a, rest) => readUntilStop fuel (a :: done) rest
      | none => none

def readMany : Argument → Bytes → Option (List α × Bytes)
  | .exactly n, input => readExactly read n [] input
  | .openEnded, input => readUntilStop read input [] input

end Repeat

def readChunk (n : Nat) (input : Bytes) : Option (Bytes × Bytes) :=
  let b := input.take n
  if b.length = n then some (b, input.drop n) else none

/-- A piece of an open-ended string: a string of the same type with a definite length. -/
def readPiece (major : Nat) : Bytes → Option (Bytes × Bytes)
  | [] => none
  | b :: rest =>
    if b.toNat / 32 = major then
      match readArgument (b.toNat % 32) rest with
      | some (.exactly n, rest) => readChunk n rest
      | _ => none
    else none

def readString (major : Nat) : Argument → Bytes → Option (Bytes × Bytes)
  | .exactly n, input => readChunk n input
  | .openEnded, input =>
    (readUntilStop (readPiece major) input [] input).map fun r => (r.1.flatten, r.2)

def readSimple (info : Nat) (input : Bytes) : Option (Item × Bytes) :=
  if info = 20 then some (.bool false, input)
  else if info = 21 then some (.bool true, input)
  else if info = 22 then some (.null, input)
  else if info = 23 then some (.undefined, input)
  else if info = 25 then
    (readNat 2 input).map fun r => (.float (widen half (BitVec.ofNat _ r.1)), r.2)
  else if info = 26 then
    (readNat 4 input).map fun r => (.float (widen single (BitVec.ofNat _ r.1)), r.2)
  else if info = 27 then
    (readNat 8 input).map fun r => (.float (Float.ofBits (UInt64.ofNat r.1)), r.2)
  else none

/-- An item that holds no other item. -/
def readScalar (major : Nat) (arg : Argument) (input : Bytes) : Option (Item × Bytes) :=
  match major, arg with
  | 0, .exactly n => some (.unsigned (UInt64.ofNat n), input)
  | 1, .exactly n => some (.negative (UInt64.ofNat n), input)
  | 2, arg => (readString 2 arg input).map fun r => (.bytes r.1, r.2)
  | 3, arg =>
    match readString 3 arg input with
    | some (b, rest) => (utf8? b).map fun s => (.text s, rest)
    | none => none
  | _, _ => none

def readEntry (read : Bytes → Option (Item × Bytes)) (input : Bytes) :
    Option ((Item × Item) × Bytes) :=
  match read input with
  | some (k, rest) => (read rest).map fun r => ((k, r.1), r.2)
  | none => none

/-- An array, a map or a tagged item, its parts read by `read`. -/
def readContainer (read : Bytes → Option (Item × Bytes)) (major info : Nat) (arg : Argument)
    (input : Bytes) : Option (Item × Bytes) :=
  match major, arg with
  | 4, arg => (readMany read arg input).map fun r => (.array r.1, r.2)
  | 5, arg => (readMany (readEntry read) arg input).map fun r => (.map (info < 24) r.1, r.2)
  | 6, .exactly n => (read input).map fun r => (.tagged (UInt64.ofNat n) r.1, r.2)
  | _, _ => none

def readItem (d : Nat) (input : Bytes) : Option (Item × Bytes) :=
  match input with
  | [] => none
  | b :: rest =>
    let major := b.toNat / 32
    let info := b.toNat % 32
    if major = 7 then readSimple info rest
    else
      match readArgument info rest with
      | none => none
      | some (arg, rest) =>
        if major < 4 then readScalar major arg rest
        else
          match d with
          | 0 => none
          | d + 1 => readContainer (readItem d) major info arg rest

/-- The one item that makes up the whole input. -/
def readAll (input : Bytes) : Option Item :=
  match readItem maxNesting input with
  | some (i, []) => some i
  | _ => none

end IndexedStore.Cbor
