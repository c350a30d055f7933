import IndexedStore.Proofs.Codec.Depth
import IndexedStore.Proofs.Store.History

/-! # What is stored can be read

After every history no stored value is longer than a payload may be. So the list of owned
entries is always read, and a record is read unless it nests too deeply.
-/
namespace IndexedStore

open Key (IsName)

/-- No value is longer than a payload may be. -/
def Content.Bounded (c : Content) : Prop := ∀ k b, c.get? k = some b → b.length ≤ maxPayload

theorem IndexPlan.length_planned {p : IndexPlan}
    (hr : p.refs.isEmpty = false → (payload p.refs).length ≤ maxPayload) {keyspace id k : String}
    {b : Bytes} (h : p.planned keyspace id k = some (some b)) : b.length ≤ maxPayload := by
  unfold planned at h
  split at h
  · cases he : p.refs.isEmpty with
    | true => simp [he] at h
    | false =>
      have hb : payload p.refs = b := by simpa [he] using h
      rw [← hb]
      exact hr he
  · split at h
    · rename_i g hg
      have hb : payload g = b := by simpa using h
      rw [← hb]
      exact g.length_payload
    · split at h
      · have hb : [] = b := by simpa using h
        rw [← hb]
        exact Nat.zero_le _
      · split at h <;> simp at h

namespace Saved

variable {m : KeyspaceModel} {e n : Entity} {id : String} {c c' : Content} {owned : BackRefs}

theorem bounded (h : Saved m e id c c' n owned) (hc : c.Bounded) : c'.Bounded := by
  intro k b hb
  obtain ⟨x, hx, hw⟩ := h.writes
  have hrefs : x.refs = m.refs n.fields id := IndexEntries.refs_eq (e := n.withId id) hx
  rw [hw] at hb
  cases hs : (IndexPlan.ofEntries owned x).saved m.name id n.fields k with
  | none =>
    rw [hs] at hb
    exact hc k b hb
  | some v =>
    rw [hs, Option.getD_some] at hb
    rw [hb] at hs
    unfold IndexPlan.saved at hs
    split at hs
    · cases hs
      exact Nat.zero_le _
    · split at hs
      · cases hs
        exact h.writable.record
      · refine IndexPlan.length_planned (fun he => ?_) hs
        show (payload x.refs).length ≤ maxPayload
        rw [hrefs]
        exact h.writable.refs (hrefs ▸ he)

end Saved

theorem Deleted.bounded {m : KeyspaceModel} {id : String} {c c' : Content} {old : Option Entity}
    {owned : BackRefs} (h : Deleted m id c c' old owned) (hc : c.Bounded) : c'.Bounded := by
  rcases h.removes with ⟨-, -, rfl⟩ | hw
  · exact hc
  · intro k b hb
    rw [hw] at hb
    split at hb
    · cases hb
    · exact hc k b hb

theorem kept_bounded (s : Schema) : Kept s fun c _ => c.Bounded where
  save h _ _ hs := hs.bounded h
  delete h _ hd := hd.bounded h
  clear h _ hc k b hb := by
    rw [hc] at hb
    split at hb
    · cases hb
    · exact h k b hb

/-- After every history, whatever schemas it goes through, no stored value is too long. -/
theorem Tracked.bounded_replay (faults : Faults) (supply : IdSupply) (journal : Journal)
    (history : List (Database × Op)) :
    ((fresh faults supply journal).replay history).engine.content.Bounded := by
  have h : (fresh faults supply journal).Sat fun c _ => c.Bounded := fun k b hb => nomatch hb
  exact h.replay fun p _ => kept_bounded p.1.schema

theorem Tracked.stands_replay (faults : Faults) (supply : IdSupply) (journal : Journal)
    (history : List (Database × Op)) {c : Content}
    (hc : c = ((fresh faults supply journal).replay history).engine.content) :
    Consistent c ((fresh faults supply journal).replay history).entities ∧ c.Bounded := by
  rw [hc]
  exact ⟨consistent_replay faults supply journal history,
    bounded_replay faults supply journal history⟩

/-- What loading the entity of an id gives. -/
def Entities.load (d : Entities) (keyspace id : String) : Except Error (Option Entity) :=
  match d.get? keyspace id with
  | none => .ok none
  | some fields =>
    if fields.Readable then .ok (some ⟨keyspace, some id, fields⟩)
    else .error (.corruption (Key.record keyspace id) (.undecodable .malformed))

namespace Consistent

variable {c : Content} {d : Entities}

theorem on_load (h : Consistent c d) (hb : c.Bounded) {keyspace : String} (hk : IsName keyspace)
    (id : String) : (Task.load keyspace id).on c = d.load keyspace id := by
  rw [Task.on_load, Task.readAt, h.get?_record hk, Entities.load]
  cases hd : d.get? keyspace id with
  | none => rfl
  | some fields =>
    obtain ⟨refs, hlive⟩ := h.live keyspace id fields hd
    have hl := hb _ _ hlive.record
    simp only [Option.map_some, StoredRecord.decode_payload hlive.ordered hl]
    split <;> rfl

/-- The entries of a live entity can be told unless its list is missing and its record is
refused by the model. -/
theorem exists_owned_iff (h : Consistent c d) (hb : c.Bounded) {m : KeyspaceModel} {id : String}
    {fields : Fields} (hd : d.get? m.name id = some fields) :
    (∃ owned, (BackRefs.owned Batch.empty m id (some ⟨m.name, some id, fields⟩)).on c =
      .ok owned) ↔
    (c.get? (Key.backRefs m.name id) = none →
      ∃ x, IndexEntries.derive m ⟨m.name, some id, fields⟩ id = .ok x) := by
  obtain ⟨refs, hlive⟩ := h.live m.name id fields hd
  cases hget : c.get? (Key.backRefs m.name id) with
  | some b =>
    obtain ⟨-, rfl⟩ := BackRefs.stored_eq_some.mp (hlive.stored.symm.trans hget)
    have hdec : decode (payload refs) = .ok refs :=
      BackRefs.decode_payload.mpr ⟨rfl, hb _ _ hget⟩
    constructor
    · intro _ hn
      cases hn
    · intro _
      exact ⟨refs, BackRefs.on_owned_of_stored _ hget hdec⟩
  | none =>
    rw [BackRefs.on_owned_of_none hget]
    cases IndexEntries.derive m ⟨m.name, some id, fields⟩ id with
    | error x =>
      constructor
      · rintro ⟨owned, ho⟩
        cases ho
      · intro hx
        obtain ⟨y, hy⟩ := hx rfl
        cases hy
    | ok x => exact ⟨fun _ _ => ⟨x, rfl⟩, fun _ => ⟨_, rfl⟩⟩

end Consistent

end IndexedStore
