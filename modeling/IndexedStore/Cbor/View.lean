import IndexedStore.Cbor.Item

/-! # Items as typed data

How an item is taken for a scalar, a list, a record or a variant. Tags are looked
through. Records are maps by field name, or lists by position; fields and variants
can also be named by their number.
-/

namespace IndexedStore.Cbor.Item

def untagged : Item → Item
  | tagged _ i => i.untagged
  | i => i

def bool? (i : Item) : Option Bool :=
  match i.untagged with
  | bool b => some b
  | _ => none

/-- A text, or bytes that spell one. -/
def text? (i : Item) : Option String :=
  match i.untagged with
  | text s => some s
  | bytes b => utf8? b
  | _ => none

def uint64? (i : Item) : Option UInt64 :=
  match i.untagged with
  | unsigned n => some n
  | _ => none

def int64? (i : Item) : Option Int64 :=
  match i.untagged with
  | unsigned n => if n.toNat < 0x8000000000000000 then some (Int64.ofNat n.toNat) else none
  | negative n => if n.toNat < 0x8000000000000000 then some (-1 - Int64.ofNat n.toNat) else none
  | _ => none

/-- A float, or an integer rounded to one. -/
def float? (i : Item) : Option Float :=
  match i.untagged with
  | float x => some x
  | unsigned n => some n.toFloat
  | negative _ => i.int64?.map Int64.toFloat
  | _ => none

def list? (i : Item) : Option (List Item) :=
  match i.untagged with
  | array items => some items
  | _ => none

def entries? (i : Item) : Option (List (Item × Item)) :=
  match i.untagged with
  | map _ entries => some entries
  | _ => none

def isUnit (i : Item) : Bool :=
  match i.untagged with
  | null | undefined => true
  | _ => false

/-- A plain null for nothing, anything else for something. -/
def option? {α : Type} (f : Item → Option α) : Item → Option (Option α)
  | null => some none
  | i => (f i).map some

/-- The position of the name that an item spells, past the last one for a name that
is not listed. -/
def position? (names : List String) (i : Item) : Option Nat :=
  match i.untagged with
  | text s => some (names.idxOf s)
  | bytes b => some (names.findIdx fun n => utf8 n == b)
  | unsigned n => some (min n.toNat names.length)
  | _ => none

/-- Puts a value into the slot of its field. A field that comes twice is refused, and
with `strict` one that is not listed. -/
def fill (names : List String) (strict : Bool) (slots : List (Option Item))
    (entry : Item × Item) : Option (List (Option Item)) :=
  match entry.1.position? names with
  | none => none
  | some n =>
    if names.length ≤ n then (if strict then none else some slots)
    else
      match slots[n]? with
      | some none => some (slots.set n (some entry.2))
      | _ => none

/-- The items of a record's fields in their declared order. A record given as a list
may leave out its last `spare` fields only. -/
def fields? (names : List String) (spare : Nat) (strict : Bool) (i : Item) :
    Option (List (Option Item)) :=
  match i.untagged with
  | array items =>
    if names.length ≤ items.length + spare && items.length ≤ names.length then
      some (items.map some ++ List.replicate (names.length - items.length) none)
    else none
  | map _ entries => entries.foldlM (fill names strict) (List.replicate names.length none)
  | _ => none

/-- The position of a variant and what it carries. A variant is its bare name, a short
map from its name, or a list of its name and its payload. -/
def variant? (names : List String) (i : Item) : Option (Nat × Option Item) :=
  let known (n : Nat) := if n < names.length then some n else none
  match i with
  | array [name, payload] => ((name.position? names).bind known).map (·, some payload)
  | array _ => none
  | map true [(name, payload)] => ((name.position? names).bind known).map (·, some payload)
  | i => ((i.position? names).bind known).map (·, none)

end IndexedStore.Cbor.Item
