import IndexedStore.Proofs.Key.Finds
import IndexedStore.Proofs.Schema.Names

/-! # One key, one meaning

The keys of all slots, of all entities and of all keyspaces that a schema accepts are
different, although names are not escaped and the fixed words of the layout may be ids and
tokens as well. Each scanned prefix reads an id from the key that was built for it, and the
prefix of a keyspace is shared by its own keys only.
-/
namespace IndexedStore.Key

/-- Apart from the list of owned entries, a slot of the empty id has no key of another id. -/
theorem Slot.segments_inj_of_ne {id id' : String} {s s' : Slot} (hid : id ≠ "")
    (hs' : s' ≠ .backRefs) (h : s.segments id = s'.segments id') : id = id' ∧ s = s' := by
  cases s <;> cases s' <;> simp_all [segments]

theorem Finds.eq_some_iff {start keyspace keyspace' id' : String} {slot s : Slot}
    (hf : Finds start keyspace slot) (hslot : slot ≠ .backRefs) (hk : IsName keyspace)
    (hk' : IsName keyspace') (hid' : id' ≠ "") (id : String) :
    trailingId? start (s.key keyspace' id') = some id ↔
      s.key keyspace' id' = slot.key keyspace id := by
  rw [hf keyspace' id' s hk' hid' id]
  constructor
  · rintro ⟨rfl, rfl, rfl⟩
    rfl
  · intro h
    obtain ⟨hn, hseg⟩ := Slot.segments_of_key hk' hk h
    obtain ⟨hi, hs⟩ := Slot.segments_inj_of_ne hid' hslot hseg
    exact ⟨hn, hs, hi⟩

/-- Keys of two accepted keyspaces are equal only for the same keyspace, id, slot, path and
token. The id behind each of the three scanned prefixes is read from exactly one key, and a
key starts with a keyspace's prefix exactly when it was built for that keyspace. -/
theorem layout_unambiguous {s s' : Schema} {k k' id : String} {m m' : KeyspaceModel}
    (hm : s.model k = .ok m) (hm' : s'.model k' = .ok m') (hid : id ≠ "") (slot : Slot) :
    (∀ (id' : String) (slot' : Slot), id' ≠ "" →
      (slot.key k id = slot'.key k' id' ↔ k = k' ∧ id = id' ∧ slot = slot')) ∧
    (∀ i, trailingId? (membersPrefix k') (slot.key k id) = some i ↔
      slot.key k id = member k' i) ∧
    (∀ path token i, trailingId? (equalityPrefix k' path token) (slot.key k id) = some i ↔
      slot.key k id = equality k' path token i) ∧
    (∀ path i, trailingId? (geoPrefix k' path) (slot.key k id) = some i ↔
      slot.key k id = geo k' path i) ∧
    (hasPrefix (keyspacePrefix k') (slot.key k id) = true ↔ k = k') := by
  have hk : IsName k := Schema.name_of_model hm ▸ Schema.isName_of_model hm
  have hk' : IsName k' := Schema.name_of_model hm' ▸ Schema.isName_of_model hm'
  refine ⟨?_, ?_, ?_, ?_, hasPrefix_keyspacePrefix hk' hk id slot⟩
  · intro id' slot' hid'
    constructor
    · exact Slot.key_inj hk hk' hid hid'
    · rintro ⟨rfl, rfl, rfl⟩
      rfl
  · exact (finds_members hk').eq_some_iff nofun hk' hk hid
  · intro path token
    exact (finds_equality hk' path token).eq_some_iff nofun hk' hk hid
  · intro path
    exact (finds_geo hk' path).eq_some_iff nofun hk' hk hid

/-- The entry of the token `geo` stands under the prefix of the points of its path, in a
keyspace whose name ends in the escape character, and no id is read from it. -/
theorem no_id_behind_token_geo :
    "1" ≠ "" ∧ hasPrefix (geoPrefix "k\\" "p") (equality "k\\" "p" "geo" "1") = true ∧
      ∀ i, trailingId? (geoPrefix "k\\" "p") (equality "k\\" "p" "geo" "1") ≠ some i := by
  refine ⟨by decide, by decide, fun i h => ?_⟩
  have hm : (Schema.single ⟨"k\\", ["p"], [], []⟩ rfl).model "k\\" =
      .ok ⟨"k\\", ["p"], [], []⟩ := rfl
  obtain ⟨-, -, -, hgeo, -⟩ := layout_unambiguous hm hm (show "1" ≠ "" by decide)
    (.equality "p" "geo")
  have hkey : Slot.key "k\\" "1" (.equality "p" "geo") = Slot.key "k\\" i (.geo "p") :=
    (hgeo "p" i).mp h
  have hname := Schema.isName_of_model hm
  have hseg := (Slot.segments_of_key hname hname hkey).2
  simp [Slot.segments] at hseg

end IndexedStore.Key
