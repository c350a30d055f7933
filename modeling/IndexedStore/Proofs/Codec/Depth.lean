import IndexedStore.Proofs.Codec.Value

/-! # How deep a record may nest

The stored form of a value puts containers inside one another: two for every nested field map
and three for every nested entity. Whatever is nested deeper than the reader allows can be
written but not be read.
-/
namespace IndexedStore

open Cbor (Item)

namespace Value

mutual

/-- How many containers the stored form of a value puts inside one another. -/
def depth : Value → Nat
  | null => 0
  | point _ => 2
  | embedded fields => fieldsDepth fields + 2
  | entity _ _ fields => fieldsDepth fields + 3
  | _ => 1

def fieldsDepth : List (String × Value) → Nat
  | [] => 0
  | (_, v) :: fields => max v.depth (fieldsDepth fields)

end

theorem nesting_intItem (n : Int64) : (intItem n).nesting = 0 := by
  unfold intItem
  split <;> rfl

mutual

theorem nesting_toItem (v : Value) : v.toItem.nesting = v.depth := by
  cases v with
  | null => rfl
  | bool b => rfl
  | int n =>
    rw [toItem, Item.nesting_variant, nesting_intItem]
    rfl
  | float x => rfl
  | text s => rfl
  | point p => rfl
  | ref id => rfl
  | embedded fields =>
    rw [toItem, Item.nesting_variant, Item.nesting_object, nesting_fieldItems fields, depth]
  | entity k i fields =>
    have hf := nesting_fieldItems fields
    rw [toItem, Item.nesting_variant, depth]
    cases i <;> simp [Item.record, Item.object, Item.option, Item.nesting, Item.entriesNesting, hf]

theorem nesting_fieldItems (fields : Fields) :
    Item.entriesNesting (fieldItems fields) = fieldsDepth fields := by
  match fields with
  | [] => rfl
  | (name, v) :: fields =>
    simp [fieldItems, Item.entriesNesting, fieldsDepth, Item.nesting, nesting_toItem v,
      nesting_fieldItems fields]

end

end Value

/-- A record nests no deeper than can be read. -/
def Fields.Readable (fields : Fields) : Prop := (Value.embedded fields).depth ≤ Cbor.maxNesting

instance (fields : Fields) : Decidable fields.Readable :=
  inferInstanceAs (Decidable ((Value.embedded fields).depth ≤ Cbor.maxNesting))

namespace StoredRecord

theorem nesting_toItem (fields : Fields) :
    (Storable.toItem (StoredRecord.mk fields)).nesting = (Value.embedded fields).depth := by
  simp [Storable.toItem, Item.record, Item.object, Item.nesting, Item.entriesNesting,
    Value.nesting_fieldItems, Value.depth]

/-- A record is read back when it nests no deeper than allowed, and is malformed otherwise. -/
theorem decode_payload {fields : Fields} (hf : fields.Ordered)
    (hl : (payload (StoredRecord.mk fields)).length ≤ maxPayload) :
    decode (payload (StoredRecord.mk fields)) =
      if fields.Readable then .ok (StoredRecord.mk fields) else .error .malformed := by
  have hn := nesting_toItem fields
  split
  · rename_i hr
    refine (IndexedStore.decode_payload (faithful hf)).mpr ⟨rfl, hl, ?_⟩
    rw [hn]
    exact hr
  · rename_i hr
    refine decode_payload_of_deep (faithful hf) hl ?_
    rw [hn]
    exact hr

end StoredRecord

end IndexedStore
