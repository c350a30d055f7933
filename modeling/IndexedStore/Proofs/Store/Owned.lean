import IndexedStore.Proofs.Index.Stage
import IndexedStore.Proofs.Store.Entities

/-! # What an operation reads of an entity

Over a content that stands for entities, the record that is loaded is the entity's field map
and the entries taken as owned are the stored list, or the ones that the model asks for when
that list is empty. Every entry of the entity that stands in the content is among them.
-/
namespace IndexedStore

open Key (Slot IsName)

theorem decode_nil {α : Type} [Storable α] {a : α} : decode [] ≠ .ok a := by
  intro h
  rw [decode_eq_ok] at h
  cases h.2

theorem BackRefs.stored_eq_none {r : BackRefs} : r.stored = none ↔ r.isEmpty = true := by
  unfold stored
  split <;> simp_all

theorem BackRefs.stored_eq_some {r : BackRefs} {b : Bytes} :
    r.stored = some b ↔ r.isEmpty = false ∧ b = payload r := by
  unfold stored
  cases r.isEmpty with
  | true => simp
  | false =>
    constructor
    · intro h
      exact ⟨rfl, (Option.some.inj h).symm⟩
    · rintro ⟨-, rfl⟩
      rfl

/-- The list `owned` holds entries of the entity only, and every one that stands in the
content. -/
structure Owns (c : Content) (keyspace id : String) (owned : BackRefs) : Prop where
  own : owned.Own keyspace id
  all : ∀ (slot : Slot) (e : IndexRef) (b : Bytes), slot.ref? keyspace id = some e →
    c.get? e.key = some b → owned.contains e = true
  marked : ∀ path token b, c.get? (Key.equality keyspace path token id) = some b → b = []

namespace Consistent

variable {c : Content} {d : Entities} {m : KeyspaceModel} {id : String} {old : Option Entity}
  {owned : BackRefs}

theorem load_eq (h : Consistent c d) {keyspace : String} (hk : IsName keyspace)
    (hl : (Task.load keyspace id).on c = .ok old) :
    old = (d.get? keyspace id).map fun fields => ⟨keyspace, some id, fields⟩ := by
  rw [Task.on_load, Task.readAt, h.get?_record hk] at hl
  cases hd : d.get? keyspace id with
  | none =>
    rw [hd] at hl
    cases hl
    rfl
  | some fields =>
    rw [hd] at hl
    obtain ⟨refs, hlive⟩ := h.live keyspace id fields hd
    simp only [Option.map_some] at hl
    cases hr : (decode (payload (StoredRecord.mk fields)) : Except CodecError StoredRecord) with
    | error x =>
      rw [hr] at hl
      cases hl
    | ok r =>
      rw [hr] at hl
      cases hl
      rw [((decode_payload (StoredRecord.faithful hlive.ordered)).mp hr).1]
      rfl

theorem owned_of_none (h : Consistent c d) (hk : IsName m.name) (hid : id ≠ "")
    (hd : d.get? m.name id = none) (hl : (Task.load m.name id).on c = .ok old)
    (ho : (BackRefs.owned Batch.empty m id old).on c = .ok owned) : owned = BackRefs.empty := by
  rcases BackRefs.on_owned_eq_ok ho with ⟨b, hb, -⟩ | ⟨-, rfl⟩
  · cases (h.absent _ id hk hid hd .backRefs).symm.trans hb
  · rw [h.load_eq hk hl, hd]
    rfl

/-- A live entity owns the stored list, or what the model asks for when there is none. -/
theorem owned_of_live (h : Consistent c d) (hk : IsName m.name) {fields : Fields}
    {refs : BackRefs} (hd : d.get? m.name id = some fields)
    (hlive : Live c m.name id fields refs) (hl : (Task.load m.name id).on c = .ok old)
    (ho : (BackRefs.owned Batch.empty m id old).on c = .ok owned) :
    owned = if refs.isEmpty then m.refs fields id else refs := by
  have hstored := hlive.stored
  rcases BackRefs.on_owned_eq_ok ho with ⟨b, hb, hdec⟩ | ⟨hn, rfl⟩
  · obtain ⟨he, rfl⟩ := BackRefs.stored_eq_some.mp (hstored.symm.trans hb)
    rw [he]
    exact (BackRefs.decode_payload.mp hdec).1
  · rw [BackRefs.stored_eq_none.mp (hstored.symm.trans hn), h.load_eq hk hl, hd]
    rfl

theorem owns (h : Consistent c d) (hk : IsName m.name) (hid : id ≠ "")
    (hl : (Task.load m.name id).on c = .ok old)
    (ho : (BackRefs.owned Batch.empty m id old).on c = .ok owned) :
    Owns c m.name id owned := by
  cases hd : d.get? m.name id with
  | none =>
    have habsent := h.absent _ id hk hid hd
    obtain rfl := h.owned_of_none hk hid hd hl ho
    refine ⟨?_, ?_, ?_⟩
    · intro e he
      simp at he
    · intro slot e b hr hb
      rw [← Slot.key_of_ref? hr, habsent slot] at hb
      cases hb
    · intro path token b hb
      cases (habsent (.equality path token)).symm.trans hb
  | some fields =>
    obtain ⟨refs, hlive⟩ := h.live _ id fields hd
    have hmarked : ∀ path token b, c.get? (Key.equality m.name path token id) = some b →
        b = [] := fun path token b hb =>
      (Slot.wanted?_equality.mp (hlive.listed (.equality path token) _ b rfl hb).2).1
    rw [h.owned_of_live hk hd hlive hl ho]
    cases he : refs.isEmpty with
    | true =>
      refine ⟨m.own_refs fields id, ?_, hmarked⟩
      intro slot e b hr hb
      have hc := (hlive.listed slot e b hr hb).1
      rw [BackRefs.isEmpty_iff.mp he e] at hc
      cases hc
    | false =>
      refine ⟨?_, ?_, hmarked⟩
      · intro e hc
        obtain ⟨slot, hr, -⟩ := hlive.agrees e hc
        exact ⟨slot, hr⟩
      · intro slot e b hr hb
        exact (hlive.listed slot e b hr hb).1

theorem owned_of_empty_id (h : Consistent c d) (hk : IsName m.name)
    (hl : (Task.load m.name "").on c = .ok old)
    (ho : (BackRefs.owned Batch.empty m "" old).on c = .ok owned) :
    old = none ∧ owned = BackRefs.empty ∧ c.get? (Key.backRefs m.name "") = none := by
  have hold : old = none := by rw [h.load_eq hk hl, h.get?_empty_id]; rfl
  refine ⟨hold, ?_⟩
  rcases BackRefs.on_owned_eq_ok ho with ⟨b, hb, hdec⟩ | ⟨hn, rfl⟩
  · rw [h.get?_backRefs_of_none hk (h.get?_empty_id _)] at hb
    split at hb
    · cases hb
      exact absurd hdec decode_nil
    · cases hb
  · rw [hold]
    exact ⟨rfl, hn⟩

end Consistent

end IndexedStore
