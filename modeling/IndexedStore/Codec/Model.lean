import IndexedStore.Codec.Payload

/-! # Stored keyspace models

A model lists its fields strictly: one that is not declared is refused, and the
lists of paths and references may be left out when empty.
-/

namespace IndexedStore

open Cbor (Item)

namespace ReferenceModel

def toItem (r : ReferenceModel) : Item :=
  Item.record [("field", .text r.field), ("target", .text r.target)]

def ofItem? (i : Item) : Option ReferenceModel :=
  match i.fields? ["field", "target"] 0 false with
  | some [some f, some t] =>
    match f.text?, t.text? with
    | some f, some t => some ⟨f, t⟩
    | _, _ => none
  | _ => none

end ReferenceModel

namespace KeyspaceModel

def fieldNames : List String := ["name", "indexes", "geo_indexes", "references"]

def toItem (m : KeyspaceModel) : Item :=
  Item.record [("name", .text m.name), ("indexes", Item.texts m.indexes),
    ("geo_indexes", Item.texts m.geoIndexes),
    ("references", .array (m.references.map ReferenceModel.toItem))]

/-- A list read element by element; nothing at all is the empty list. -/
def listOfItem? {α : Type} (read : Item → Option α) : Option Item → Option (List α)
  | none => some []
  | some i => i.list?.bind fun l => l.mapM read

def ofItem? (i : Item) : Option KeyspaceModel :=
  match i.fields? fieldNames 3 true with
  | some [some n, x, g, r] =>
    match n.text?, listOfItem? Item.text? x, listOfItem? Item.text? g,
      listOfItem? ReferenceModel.ofItem? r with
    | some n, some x, some g, some r => some ⟨n, x, g, r⟩
    | _, _, _, _ => none
  | _ => none

end KeyspaceModel

instance : Storable KeyspaceModel := ⟨KeyspaceModel.toItem, KeyspaceModel.ofItem?⟩

end IndexedStore
