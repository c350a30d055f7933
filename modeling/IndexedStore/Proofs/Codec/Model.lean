import IndexedStore.Codec.Model
import IndexedStore.Proofs.Codec.Payload

/-! # Keyspace models are read back -/
namespace IndexedStore

open Cbor (Item)

namespace ReferenceModel

theorem canonical_toItem (r : ReferenceModel) : r.toItem.Canonical :=
  Item.canonical_record (by simp [Item.Canonical])

theorem ofItem?_toItem (r : ReferenceModel) : ofItem? r.toItem = some r := by
  unfold ofItem? toItem
  rw [show ["field", "target"] = [("field", Item.text r.field),
    ("target", Item.text r.target)].map Prod.fst from rfl, Item.fields?_record (by simp)]
  simp [Item.text?, Item.untagged]

end ReferenceModel

namespace KeyspaceModel

theorem canonical_toItem (m : KeyspaceModel) : m.toItem.Canonical := by
  refine Item.canonical_record ?_
  simp [Item.texts, Item.Canonical, Item.allCanonical_iff, ReferenceModel.canonical_toItem]

theorem listOfItem?_array {α : Type} {read : Item → Option α} {write : α → Item}
    (h : ∀ a, read (write a) = some a) (l : List α) :
    listOfItem? read (some (.array (l.map write))) = some l :=
  mapM_map_of_inverse h l

theorem ofItem?_toItem (m : KeyspaceModel) : ofItem? m.toItem = some m := by
  have htexts : ∀ l, listOfItem? Item.text? (some (Item.texts l)) = some l :=
    listOfItem?_array fun _ => rfl
  have hreferences := listOfItem?_array ReferenceModel.ofItem?_toItem m.references
  unfold ofItem? toItem
  rw [show fieldNames = [("name", Item.text m.name), ("indexes", Item.texts m.indexes),
    ("geo_indexes", Item.texts m.geoIndexes),
    ("references", .array (m.references.map ReferenceModel.toItem))].map Prod.fst from rfl,
    Item.fields?_record (by simp)]
  simp [Item.text?, Item.untagged, htexts, hreferences]

theorem faithful (m : KeyspaceModel) : Faithful m :=
  ⟨m.canonical_toItem, fun _ => m.ofItem?_toItem⟩

end KeyspaceModel

end IndexedStore
