import IndexedStore.Codec.Payload

/-! # Stored points and values -/

namespace IndexedStore

open Cbor (Item)

namespace GeoPoint

def fieldNames : List String := ["longitude", "latitude"]

def toItem (p : GeoPoint) : Item :=
  Item.record [("longitude", .float p.longitude), ("latitude", .float p.latitude)]

def ofItem? (i : Item) : Option GeoPoint :=
  match i.fields? fieldNames 0 false with
  | some [some x, some y] =>
    match x.float?, y.float? with
    | some x, some y => some ⟨x, y⟩
    | _, _ => none
  | _ => none

end GeoPoint

instance : Storable GeoPoint := ⟨GeoPoint.toItem, GeoPoint.ofItem?⟩

namespace Metric

def names : List String := ["meters", "kilometers", "miles", "feet"]

def toItem : Metric → Item
  | meters => .text "meters"
  | kilometers => .text "kilometers"
  | miles => .text "miles"
  | feet => .text "feet"

def ofItem? (i : Item) : Option Metric :=
  match i.variant? names with
  | some (n, payload) =>
    if payload.all Item.isUnit then [meters, kilometers, miles, feet][n]? else none
  | none => none

end Metric

namespace Distance

def fieldNames : List String := ["value", "metric"]

def toItem (d : Distance) : Item :=
  Item.record [("value", .float d.value), ("metric", d.metric.toItem)]

def ofItem? (i : Item) : Option Distance :=
  match i.fields? fieldNames 0 false with
  | some [some x, some m] =>
    match x.float?, Metric.ofItem? m with
    | some x, some m => some ⟨x, m⟩
    | _, _ => none
  | _ => none

end Distance

instance : Storable Distance := ⟨Distance.toItem, Distance.ofItem?⟩

namespace Value

/-- The variants in the order of their numbers. -/
def variantNames : List String :=
  ["Null", "Bool", "Int", "Float", "Text", "Point", "Ref", "Embedded", "Entity"]

def entityFieldNames : List String := ["keyspace", "id", "fields"]

def intItem (n : Int64) : Item :=
  if 0 ≤ n.toInt then .unsigned (UInt64.ofNat n.toInt.toNat)
  else .negative (UInt64.ofNat (-1 - n.toInt).toNat)

mutual

def toItem : Value → Item
  | null => .text "Null"
  | bool b => Item.variant "Bool" (.bool b)
  | int n => Item.variant "Int" (intItem n)
  | float x => Item.variant "Float" (.float x)
  | text s => Item.variant "Text" (.text s)
  | point p => Item.variant "Point" p.toItem
  | ref id => Item.variant "Ref" (.text id)
  | embedded fields => Item.variant "Embedded" (Item.object (fieldItems fields))
  | entity k i fields =>
    Item.variant "Entity" (Item.record [("keyspace", .text k), ("id", Item.option .text i),
      ("fields", Item.object (fieldItems fields))])

def fieldItems : List (String × Value) → List (Item × Item)
  | [] => []
  | (name, v) :: fields => (.text name, v.toItem) :: fieldItems fields

end

def fieldOfPair? (read : Item → Option Value) (entry : Item × Item) : Option (String × Value) :=
  match entry.1.text?, read entry.2 with
  | some name, some v => some (name, v)
  | _, _ => none

/-- A field map, each value read by `read`; of two entries of one name the later one
counts. -/
def fieldsOfItem? (read : Item → Option Value) (i : Item) : Option Fields :=
  match i.entries? with
  | some entries => (entries.mapM (fieldOfPair? read)).map Assoc.ofList
  | none => none

def entityOfItem? (read : Item → Option Value) (i : Item) : Option Entity :=
  match i.fields? entityFieldNames 0 false with
  | some [some k, id, some f] =>
    match k.text?, (id.getD .null).option? Item.text?, fieldsOfItem? read f with
    | some k, some id, some f => some ⟨k, id, f⟩
    | _, _, _ => none
  | _ => none

/-- Reads a value that nests at most `n` values. -/
def ofItemWithin? : Nat → Item → Option Value
  | 0, _ => none
  | n + 1, i =>
    match i.variant? variantNames with
    | some (0, payload) => if payload.all Item.isUnit then some .null else none
    | some (k, some p) =>
      match k with
      | 1 => p.bool?.map .bool
      | 2 => p.int64?.map .int
      | 3 => p.float?.map .float
      | 4 => p.text?.map .text
      | 5 => (GeoPoint.ofItem? p).map .point
      | 6 => p.text?.map .ref
      | 7 => (fieldsOfItem? (ofItemWithin? n) p).map .embedded
      | _ => (entityOfItem? (ofItemWithin? n) p).map Value.ofEntity
    | _ => none

/-- Each nested value takes a container, so a readable item nests no more values
than containers. -/
def ofItem? (i : Item) : Option Value := ofItemWithin? (Cbor.maxNesting + 1) i

end Value

instance : Storable Value := ⟨Value.toItem, Value.ofItem?⟩

namespace Entity

def toItem (e : Entity) : Item :=
  Item.record [("keyspace", .text e.keyspace), ("id", Item.option .text e.id),
    ("fields", Item.object (Value.fieldItems e.fields))]

def ofItem? (i : Item) : Option Entity := Value.entityOfItem? Value.ofItem? i

end Entity

instance : Storable Entity := ⟨Entity.toItem, Entity.ofItem?⟩

/-- The stored form of an entity: its field map. The key says whose it is. -/
structure StoredRecord where
  fields : Fields

instance : Storable StoredRecord where
  toItem r := Item.record [("fields", Item.object (Value.fieldItems r.fields))]
  ofItem? i :=
    match i.fields? ["fields"] 0 false with
    | some [some f] => (Value.fieldsOfItem? Value.ofItem? f).map .mk
    | _ => none

end IndexedStore
