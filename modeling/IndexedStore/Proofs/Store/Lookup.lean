import IndexedStore.Proofs.Key.Finds
import IndexedStore.Proofs.Storage.Reading
import IndexedStore.Proofs.Storage.Scan
import IndexedStore.Proofs.Store.Entities

/-! # Ids found by scans

Over a consistent content a scan finds an id exactly when the slot that the prefix belongs to
is not empty, and the membership scan finds the live ids.
-/
namespace IndexedStore

open Key (Slot IsName Finds)

def Content.ids (c : Content) (start : String) : TextSet :=
  TextSet.ofTexts ((c.scan start).filterMap fun e => Key.trailingId? start e.1)

namespace Consistent

variable {c : Content} {d : Entities}

/-- What a scan finds with an id behind the prefix is the slot of that id. -/
theorem exists_scan (h : Consistent c d) {start keyspace : String} {slot : Slot}
    (hf : Finds start keyspace slot) (hk : IsName keyspace) {id : String} {P : Bytes → Prop} :
    (∃ e ∈ c.scan start, Key.trailingId? start e.1 = some id ∧ P e.2) ↔
      id ≠ "" ∧ ∃ b, c.get? (slot.key keyspace id) = some b ∧ P b := by
  constructor
  · rintro ⟨⟨k, b⟩, hkb, ht, hP⟩
    obtain ⟨hget, -⟩ := Content.mem_scan.mp hkb
    obtain ⟨keyspace', id', s, hk', hid', rfl⟩ := h.keyed k b hget
    obtain ⟨rfl, rfl, rfl⟩ := (hf keyspace' id' s hk' hid' id).mp ht
    exact ⟨hid', b, hget, hP⟩
  · rintro ⟨hid, b, hb, hP⟩
    have ht := (hf keyspace id slot hk hid id).mpr ⟨rfl, rfl, rfl⟩
    exact ⟨(_, b), Content.mem_scan.mpr ⟨hb, Key.hasPrefix_of_trailingId? ht⟩, ht, hP⟩

theorem contains_ids (h : Consistent c d) {start keyspace : String} {slot : Slot}
    (hf : Finds start keyspace slot) (hk : IsName keyspace) {id : String} :
    (c.ids start).contains id = true ↔
      id ≠ "" ∧ (c.get? (slot.key keyspace id)).isSome = true := by
  rw [Content.ids, TextSet.contains_ofTexts, List.mem_filterMap, Option.isSome_iff_exists]
  simpa using h.exists_scan hf hk (P := fun _ => True)

theorem contains_of_get? (h : Consistent c d) {keyspace id : String} {s : Slot} {b : Bytes}
    (hk : IsName keyspace) (hid : id ≠ "") (hb : c.get? (s.key keyspace id) = some b) :
    (d keyspace).contains id = true := by
  cases hd : d.get? keyspace id with
  | none => cases (h.absent keyspace id hk hid hd s).symm.trans hb
  | some fields => exact Dict.contains_eq_true.mpr ⟨fields, hd⟩

theorem id_ne_of_contains (h : Consistent c d) {keyspace id : String}
    (hd : (d keyspace).contains id = true) : id ≠ "" := by
  obtain ⟨fields, hf⟩ := Dict.contains_eq_true.mp hd
  exact (h.named keyspace id fields hf).2

theorem contains_members (h : Consistent c d) {keyspace : String} (hk : IsName keyspace)
    {id : String} : (c.ids (Key.membersPrefix keyspace)).contains id = (d keyspace).contains id := by
  rw [Bool.eq_iff_iff, h.contains_ids (Key.finds_members hk) hk]
  constructor
  · rintro ⟨hid, hb⟩
    obtain ⟨b, hb⟩ := Option.isSome_iff_exists.mp hb
    exact h.contains_of_get? hk hid hb
  · intro hd
    obtain ⟨fields, hf⟩ := Dict.contains_eq_true.mp hd
    obtain ⟨refs, hl⟩ := h.live keyspace id fields hf
    exact ⟨h.id_ne_of_contains hd, Option.isSome_iff_exists.mpr ⟨[], hl.member⟩⟩

theorem keys_members (h : Consistent c d) {keyspace : String} (hk : IsName keyspace) :
    (c.ids (Key.membersPrefix keyspace)).keys = (d keyspace).keys :=
  Dict.keys_ext fun _ => h.contains_members hk

theorem size_members (h : Consistent c d) {keyspace : String} (hk : IsName keyspace) :
    (c.ids (Key.membersPrefix keyspace)).size = (d keyspace).size := by
  rw [← Dict.length_keys, ← Dict.length_keys, h.keys_members hk]

end Consistent

end IndexedStore
