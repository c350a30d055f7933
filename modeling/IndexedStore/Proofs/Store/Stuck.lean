import IndexedStore.Proofs.Store.Served

/-! # Entities that a change of schema leaves stuck

A write first asks which entries the entity owns. An entity that was stored without any has no
list of them, so that its old record is put to the model of the write, and a model that the
record does not fit refuses the write. Main statement: under every history a readable entity
can be deleted, and replaced by whatever else could be saved, exactly when it is not stuck.
-/
namespace IndexedStore

theorem Consistent.live_of_record {c : Content} {d : Entities} (h : Consistent c d)
    {keyspace id : String} (hk : Key.IsName keyspace) {b : Bytes} {r : StoredRecord}
    (hb : c.get? (Key.record keyspace id) = some b) (hr : decode b = .ok r) :
    d.get? keyspace id = some r.fields ∧ r.fields.Readable := by
  obtain ⟨fields, hd, rfl⟩ := Option.map_eq_some_iff.mp ((h.get?_record hk id).symm.trans hb)
  obtain ⟨refs, hlive⟩ := h.live keyspace id fields hd
  obtain ⟨rfl, -, hn⟩ := (decode_payload (StoredRecord.faithful hlive.ordered)).mp hr
  rw [StoredRecord.nesting_toItem] at hn
  exact ⟨hd, hn⟩

/-- After every history, whatever schemas it went through, take an entity of a declared keyspace
with a readable record, on a healthy backing store. It can be deleted exactly when it is not
stuck, and just then every entity that some store accepts under its id is accepted in its
place. -/
theorem replaceable_iff_not_stuck (faults : Faults) (supply : IdSupply) (journal : Journal)
    (history : List (Database × Op)) :
    let t := (Tracked.fresh faults supply journal).replay history
    ∀ (db : Database) (m : KeyspaceModel) (id : String) (b : Bytes) (r : StoredRecord)
      (s : Engine), s.content = t.engine.content → s.faults = Faults.none →
      db.schema.model m.name = .ok m → s.content.get? (Key.record m.name id) = some b →
      decode b = .ok r →
      ((db.deleteById m.name id s).1 = .ok true ↔ ¬Stuck s.content m id r.fields) ∧
      ∀ e : Entity, e.keyspace = m.name → e.id = some id →
        (∃ fresh, (db.save e fresh).1 = .ok id) →
        ((db.save e s).1 = .ok id ↔ ¬Stuck s.content m id r.fields) := by
  intro t db m id b r s hcontent hs hm hget hdec
  obtain ⟨hc, hb⟩ := Tracked.stands_replay faults supply journal history hcontent
  obtain ⟨hd, hr⟩ := hc.live_of_record (Schema.isName_of_model hm) hget hdec
  refine ⟨?_, fun e hk hid hfresh => ?_⟩
  · rw [hc.deleteById_eq_ok hb hs hm hd]
    simp [hr]
  · have hme : db.schema.model e.keyspace = .ok m := by
      rw [hk]
      exact hm
    obtain ⟨s₀, hs₀⟩ := hfresh
    obtain ⟨m', n, owned, hm', hsaved⟩ := Database.save_eq_ok (Prod.ext hs₀ rfl)
    cases hme.symm.trans hm'
    have haccept : ∃ n, Acceptable m e id n := ⟨n, hsaved.toAcceptable⟩
    rw [hc.save_eq_ok hb hs hme hid hd]
    simp [haccept, hr]

/-- A text that was stored before its path was indexed as a place can be neither deleted nor
replaced, not even by an entity without that field, which an empty store accepts. -/
theorem stuck_after_geo_indexing :
    let t := (Tracked.fresh Faults.none .none []).replay
      [(.indexing [] rfl, .save OrderedEntity.sample)]
    let s := Engine.holding t.engine.content
    let db : Database := .quiet (.single ⟨"k", [], ["f"], []⟩ rfl)
    let e : Entity := ⟨"k", some "1", []⟩
    (s.content.get? (Key.record "k" "1")).isSome = true ∧
      (db.save e Engine.empty).1.toOption = some "1" ∧
      (db.deleteById "k" "1" s).1 ≠ .ok true ∧ (db.save e s).1 ≠ .ok "1" := by
  intro t s db e
  have hfresh : (db.save e Engine.empty).1.toOption = some "1" := by decide +kernel
  have hget : s.content.get? (Key.record "k" "1") =
      some (payload (StoredRecord.mk OrderedEntity.sample.val.fields)) := by decide +kernel
  have hdec : decode (payload (StoredRecord.mk OrderedEntity.sample.val.fields)) =
      .ok (StoredRecord.mk OrderedEntity.sample.val.fields) := by
    rw [StoredRecord.decode_payload OrderedEntity.sample.property (by decide +kernel),
      if_pos (by decide)]
  have hstuck : Stuck s.content ⟨"k", [], ["f"], []⟩ "1" OrderedEntity.sample.val.fields :=
    ⟨by decide +kernel, "f", List.mem_singleton.mpr rfl, .text "x", rfl, rfl⟩
  obtain ⟨hdelete, hsave⟩ := replaceable_iff_not_stuck Faults.none .none []
    [(.indexing [] rfl, .save OrderedEntity.sample)] db ⟨"k", [], ["f"], []⟩ "1" _ _ s rfl rfl rfl
    hget hdec
  refine ⟨by rw [hget]; rfl, hfresh, fun h => hdelete.mp h hstuck, fun h => ?_⟩
  have hrun := congrArg Prod.fst (Task.run_of_toOption hfresh)
  exact (hsave e rfl rfl ⟨Engine.empty, hrun⟩).mp h hstuck

end IndexedStore
