import IndexedStore.Proofs.Codec.Model
import IndexedStore.Proofs.Codec.Query
import IndexedStore.Proofs.Index.Refs

/-! # What is stored is read back

Main statement: for every type that is stored, the bytes of a value are read as that value and
as no other, unless they nest too deeply to be read at all.
-/
namespace IndexedStore

/-- What is written for the value is read as this value alone. The reader counts down from 128
with every container that it enters and refuses the one at which it arrives at zero, so that it
reads fewer than 128 containers inside one another. -/
def RoundTrips {α : Type} [Storable α] (a : α) : Prop :=
  ∀ b, encode a = .ok b → ∀ r, decode b = .ok r ↔ r = a ∧ (Storable.toItem a).nesting < 128

theorem Faithful.roundTrips {α : Type} [Storable α] {a : α} (ha : Faithful a) : RoundTrips a := by
  intro b hb r
  obtain ⟨rfl, hl⟩ := encode_eq_ok.mp hb
  rw [decode_payload ha]
  simp [hl, Cbor.maxNesting, Nat.lt_succ_iff]

/-- Every type that is stored: integers of 64 bits, texts and names come back exactly, and a
float as the same float, whichever width it was written in. Field maps list their names in
order. -/
theorem stored_roundTrips :
    (∀ fields : Fields, fields.Ordered → RoundTrips (StoredRecord.mk fields)) ∧
    (∀ v : Value, v.Ordered → RoundTrips v) ∧
    (∀ e : Entity, e.Ordered → RoundTrips e) ∧
    (∀ p : GeoPoint, RoundTrips p) ∧
    (∀ d : Distance, RoundTrips d) ∧
    (∀ r : BackRefs, RoundTrips r) ∧
    (∀ p : Predicate, p.Ordered → RoundTrips p) ∧
    (∀ q : Query, q.Ordered → RoundTrips q) ∧
    (∀ r : PageRequest, RoundTrips r) ∧
    ∀ m : KeyspaceModel, RoundTrips m :=
  ⟨fun _ hf => (StoredRecord.faithful hf).roundTrips, fun _ hv => (Value.faithful hv).roundTrips,
    fun _ he => (Entity.faithful he).roundTrips, fun p => p.faithful.roundTrips,
    fun d => d.faithful.roundTrips, fun r => r.faithful.roundTrips,
    fun _ hp => (Predicate.faithful hp).roundTrips, fun _ hq => (Query.faithful hq).roundTrips,
    fun r => r.faithful.roundTrips, fun m => m.faithful.roundTrips⟩

/-- The least integer, a negative zero, the least subnormal and an undefined float, inside a
record inside a predicate. -/
theorem extremes_roundTrip :
    let v : Value := .embedded [("a:", .int Int64.minValue), ("b", .float (-0.0)),
      ("c", .entity "k" none [("", .float (Float.ofBits 1)), ("é", .float (0 / 0))])]
    let p : Predicate := .all [.eq "a.b" v, .any []]
    encode p = .ok (payload p) ∧ decode (payload p) = .ok p := by
  intro v p
  have hencode : encode p = .ok (payload p) := encode_eq_ok.mpr ⟨rfl, by decide +kernel⟩
  have houter : List.Pairwise (· < ·) ["a:", "b", "c"] := by decide +kernel
  have hinner : List.Pairwise (· < ·) ["", "é"] := by decide +kernel
  have hordered : p.Ordered :=
    ⟨⟨List.pairwise_map.mp houter, trivial, trivial,
      ⟨List.pairwise_map.mp hinner, trivial, trivial, trivial⟩, trivial⟩, trivial, trivial⟩
  obtain ⟨-, -, -, -, -, -, hpredicate, -⟩ := stored_roundTrips
  exact ⟨hencode, (hpredicate p hordered _ hencode p).mpr ⟨rfl, by decide +kernel⟩⟩

end IndexedStore
