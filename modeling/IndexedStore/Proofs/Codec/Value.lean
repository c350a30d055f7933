import IndexedStore.Codec.Value
import IndexedStore.Proofs.Codec.Payload
import IndexedStore.Proofs.Collection.Dict

/-! # Points, values and records are read back

A value is read back from its item when every field map in it lists its names in order, and
so is a stored record.
-/
namespace IndexedStore

open Cbor (Item)

namespace GeoPoint

theorem canonical_toItem (p : GeoPoint) : p.toItem.Canonical :=
  Item.canonical_record (by simp [Item.Canonical])

theorem ofItem?_toItem (p : GeoPoint) : ofItem? p.toItem = some p := by
  unfold ofItem? toItem
  rw [show fieldNames = [("longitude", Item.float p.longitude),
    ("latitude", Item.float p.latitude)].map Prod.fst from rfl,
    Item.fields?_record (by simp)]
  simp [Item.float?, Item.untagged]

theorem faithful (p : GeoPoint) : Faithful p := ⟨p.canonical_toItem, fun _ => p.ofItem?_toItem⟩

theorem length_payload (p : GeoPoint) : (payload p).length ≤ maxPayload := by
  let y := (Item.float p.latitude).write []
  let x := (Item.float p.longitude).write ((Item.text "latitude").write y)
  have hp : payload p = Cbor.head 5 2 ((Item.text "longitude").write x) := rfl
  have hy : y.length ≤ 9 := Cbor.length_writeFloat_le p.latitude []
  have hlat := Cbor.length_write_text_le "latitude" y
  have hx := Cbor.length_writeFloat_le p.longitude ((Item.text "latitude").write y)
  have hlon := Cbor.length_write_text_le "longitude" x
  have hhead := Cbor.length_head_le 5 2 ((Item.text "longitude").write x)
  have hlat' : (Cbor.utf8 "latitude").length = 8 := by decide
  have hlon' : (Cbor.utf8 "longitude").length = 9 := by decide
  have hx' : x.length ≤ ((Item.text "latitude").write y).length + 9 := hx
  rw [hp, maxPayload]
  omega

theorem decode_payload {p q : GeoPoint} : decode (payload p) = .ok q ↔ q = p := by
  have hn : (Storable.toItem p).nesting ≤ Cbor.maxNesting := (by decide : 1 ≤ Cbor.maxNesting)
  rw [IndexedStore.decode_payload p.faithful]
  simp [hn, p.length_payload]

end GeoPoint

namespace Value

theorem canonical_intItem (n : Int64) : (intItem n).Canonical := by
  unfold intItem
  split <;> trivial

theorem int64?_intItem (n : Int64) : (intItem n).int64? = some n := by
  have hlow := n.le_toInt
  have hhigh := n.toInt_lt
  unfold intItem
  split
  · rename_i h
    have hn : (UInt64.ofNat n.toInt.toNat).toNat = n.toInt.toNat := by
      rw [UInt64.toNat_ofNat']
      omega
    simp only [Item.int64?, Item.untagged, hn]
    rw [if_pos (by omega)]
    refine congrArg some (Int64.toInt_inj.mp ?_)
    rw [Int64.toInt_ofNat_of_lt (by omega)]
    omega
  · rename_i h
    have hn : (UInt64.ofNat (-1 - n.toInt).toNat).toNat = (-1 - n.toInt).toNat := by
      rw [UInt64.toNat_ofNat']
      omega
    simp only [Item.int64?, Item.untagged, hn]
    rw [if_pos (by omega)]
    refine congrArg some (Int64.toInt_inj.mp ?_)
    have hneg : (-1 : Int64).toInt = -1 := by decide
    rw [Int64.toInt_sub, Int64.toInt_ofNat_of_lt (by omega), hneg,
      show -1 - ((-1 - n.toInt).toNat : Int) = n.toInt by omega]
    exact n.toInt_bmod

theorem canonical_entity {e : Entity} (h : Item.EntriesCanonical (fieldItems e.fields)) :
    e.toItem.Canonical := by
  refine Item.canonical_record ?_
  have hf := Item.canonical_object h
  cases e.id <;> simp [Item.option, Item.Canonical, hf]

mutual

theorem canonical_toItem (v : Value) : v.toItem.Canonical := by
  cases v with
  | null => trivial
  | bool b => exact Item.canonical_variant trivial
  | int n => exact Item.canonical_variant (canonical_intItem n)
  | float x => exact Item.canonical_variant trivial
  | text s => exact Item.canonical_variant trivial
  | point p => exact Item.canonical_variant p.canonical_toItem
  | ref id => exact Item.canonical_variant trivial
  | embedded fields =>
    exact Item.canonical_variant (Item.canonical_object (canonical_fieldItems fields))
  | entity k i fields =>
    exact Item.canonical_variant (canonical_entity (e := ⟨k, i, fields⟩)
      (canonical_fieldItems fields))

theorem canonical_fieldItems (fields : Fields) : Item.EntriesCanonical (fieldItems fields) := by
  match fields with
  | [] => trivial
  | (name, v) :: fields => exact ⟨trivial, canonical_toItem v, canonical_fieldItems fields⟩

end

theorem fieldsOfItem?_object {read : Item → Option Value} {fields : Fields}
    (hs : Assoc.Sorted fields)
    (h : (fieldItems fields).mapM (fieldOfPair? read) = some fields) :
    fieldsOfItem? read (Item.object (fieldItems fields)) = some fields := by
  simp only [fieldsOfItem?, Item.object, Item.entries?, Item.untagged, h, Option.map_some]
  rw [Assoc.ofList_of_sorted hs]

theorem option?_option {α : Type} {f : Item → Option α} {g : α → Item} {o : Option α}
    (hg : ∀ a, o = some a → g a ≠ .null ∧ f (g a) = some a) :
    (Item.option g o).option? f = some o := by
  cases o with
  | none => rfl
  | some a =>
    obtain ⟨hne, ha⟩ := hg a rfl
    simp [Item.option, Item.option?, ha]

theorem entityOfItem?_record {read : Item → Option Value} {e : Entity}
    (hs : Assoc.Sorted e.fields)
    (h : (fieldItems e.fields).mapM (fieldOfPair? read) = some e.fields) :
    entityOfItem? read e.toItem = some e := by
  unfold entityOfItem? Entity.toItem
  rw [show entityFieldNames = [("keyspace", Item.text e.keyspace),
    ("id", Item.option .text e.id),
    ("fields", Item.object (fieldItems e.fields))].map Prod.fst from rfl,
    Item.fields?_record (by simp)]
  have hid : (Item.option .text e.id).option? Item.text? = some e.id :=
    option?_option fun s _ => ⟨by simp, rfl⟩
  simp [Item.text?, Item.untagged, hid, fieldsOfItem?_object hs h]

mutual

theorem ofItemWithin?_toItem (v : Value) (hv : v.Ordered) (n : Nat) (h : v.toItem.nesting ≤ n) :
    ofItemWithin? (n + 1) v.toItem = some v := by
  cases v with
  | null =>
    rw [toItem, ofItemWithin?, Item.variant?_text (n := 0) (by decide) (by decide)]
    rfl
  | bool b =>
    rw [toItem, ofItemWithin?, Item.variant?_variant (n := 1) (by decide) (by decide)]
    simp [Item.bool?, Item.untagged]
  | int k =>
    rw [toItem, ofItemWithin?, Item.variant?_variant (n := 2) (by decide) (by decide)]
    simp [int64?_intItem]
  | float x =>
    rw [toItem, ofItemWithin?, Item.variant?_variant (n := 3) (by decide) (by decide)]
    simp [Item.float?, Item.untagged]
  | text s =>
    rw [toItem, ofItemWithin?, Item.variant?_variant (n := 4) (by decide) (by decide)]
    simp [Item.text?, Item.untagged]
  | point p =>
    rw [toItem, ofItemWithin?, Item.variant?_variant (n := 5) (by decide) (by decide)]
    simp [GeoPoint.ofItem?_toItem]
  | ref id =>
    rw [toItem, ofItemWithin?, Item.variant?_variant (n := 6) (by decide) (by decide)]
    simp [Item.text?, Item.untagged]
  | embedded fields =>
    obtain ⟨hs, hf⟩ := hv
    rw [toItem, Item.nesting_variant, Item.nesting_object] at h
    obtain ⟨n, rfl⟩ : ∃ k, n = k + 1 := ⟨n - 1, by omega⟩
    rw [toItem, ofItemWithin?, Item.variant?_variant (n := 7) (by decide) (by decide)]
    simp [fieldsOfItem?_object hs (mapM_fieldItems fields hf n (by omega))]
  | entity k i fields =>
    obtain ⟨hs, hf⟩ := hv
    have hn : Item.entriesNesting (fieldItems fields) + 3 ≤ n := by
      rw [toItem, Item.nesting_variant] at h
      simp [Item.record, Item.object, Item.nesting, Item.entriesNesting] at h
      omega
    obtain ⟨n, rfl⟩ : ∃ k, n = k + 1 := ⟨n - 1, by omega⟩
    rw [toItem, ofItemWithin?, Item.variant?_variant (n := 8) (by decide) (by decide)]
    have he := entityOfItem?_record (e := ⟨k, i, fields⟩) hs
      (mapM_fieldItems fields hf n (by omega))
    exact congrArg (Option.map Value.ofEntity) he

theorem mapM_fieldItems (fields : Fields) (hf : AllOrdered fields) (n : Nat)
    (h : Item.entriesNesting (fieldItems fields) ≤ n) :
    (fieldItems fields).mapM (fieldOfPair? (ofItemWithin? (n + 1))) = some fields := by
  match fields with
  | [] => rfl
  | (name, v) :: fields =>
    obtain ⟨hv, hf⟩ := hf
    simp only [fieldItems, Item.entriesNesting, Nat.max_le] at h
    rw [fieldItems, List.mapM_cons, fieldOfPair?, ofItemWithin?_toItem v hv n h.1.2,
      mapM_fieldItems fields hf n h.2]
    rfl

end

end Value

abbrev Fields.Ordered (fields : Fields) : Prop := (Value.embedded fields).Ordered

theorem StoredRecord.faithful {fields : Fields} (h : fields.Ordered) :
    Faithful (StoredRecord.mk fields) := by
  obtain ⟨hs, hf⟩ := h
  constructor
  · refine Item.canonical_record fun f hmem => ?_
    rw [List.mem_singleton.mp hmem]
    exact Item.canonical_object (Value.canonical_fieldItems fields)
  · intro hn
    have hn' : Item.entriesNesting (Value.fieldItems fields) + 2 ≤ Cbor.maxNesting := by
      simp [Storable.toItem, Item.record, Item.object, Item.nesting, Item.entriesNesting] at hn
      omega
    have hr := Value.fieldsOfItem?_object hs
      (Value.mapM_fieldItems fields hf Cbor.maxNesting (by omega))
    have hfields := Item.fields?_record
      (l := [("fields", Item.object (Value.fieldItems fields))]) (by simp) 0 false
    simp only [List.map_cons, List.map_nil] at hfields
    simp only [Storable.toItem, Storable.ofItem?, hfields]
    exact congrArg (Option.map StoredRecord.mk) hr

theorem Value.faithful {v : Value} (hv : v.Ordered) : Faithful v :=
  ⟨v.canonical_toItem, ofItemWithin?_toItem v hv Cbor.maxNesting⟩

theorem Entity.faithful {e : Entity} (he : e.Ordered) : Faithful e := by
  refine ⟨Value.canonical_entity (Value.canonical_fieldItems e.fields), fun hn => ?_⟩
  have hn' : Item.entriesNesting (Value.fieldItems e.fields) + 2 ≤ Cbor.maxNesting := by
    simp [Storable.toItem, toItem, Item.record, Item.object, Item.nesting,
      Item.entriesNesting] at hn
    omega
  exact Value.entityOfItem?_record he.1
    (Value.mapM_fieldItems e.fields he.2 Cbor.maxNesting (by omega))

namespace Distance

theorem ofItem?_metric (m : Metric) : Metric.ofItem? m.toItem = some m := by
  cases m <;> decide

theorem canonical_toItem (d : Distance) : d.toItem.Canonical := by
  refine Item.canonical_record ?_
  cases d.metric <;> simp [Item.Canonical, Metric.toItem]

theorem ofItem?_toItem (d : Distance) : ofItem? d.toItem = some d := by
  unfold ofItem? toItem
  rw [show fieldNames = [("value", Item.float d.value), ("metric", d.metric.toItem)].map Prod.fst
    from rfl, Item.fields?_record (by simp)]
  simp [Item.float?, Item.untagged, ofItem?_metric]

theorem faithful (d : Distance) : Faithful d :=
  ⟨d.canonical_toItem, fun _ => d.ofItem?_toItem⟩

end Distance

end IndexedStore
