import IndexedStore.Operation.Search
import IndexedStore.Proofs.Store.History

/-! # Entries that a save skips

A save does not write an equality entry that it takes for written. Under one schema such an
entry stands in the content, after a change of schema it may not. Main statement: a save
leaves every index slot of its entity as the model asks for exactly when it skips no entry.
-/
namespace IndexedStore

open Key (Slot IsName)

/-- An equality entry is missing and a save takes it for written: the stored list has it, or
there is no list and the old record asks for it under the model of the save. -/
structure Skips (c : Content) (d : Entities) (m : KeyspaceModel) (id path token : String) :
    Prop where
  missing : c.get? (Key.equality m.name path token id) = none
  taken : (∃ b, ∃ refs : BackRefs, c.get? (Key.backRefs m.name id) = some b ∧
      decode b = .ok refs ∧
      refs.contains (.equality (Key.equality m.name path token id)) = true) ∨
    (c.get? (Key.backRefs m.name id) = none ∧
      ∃ old, d.get? m.name id = some old ∧
        (m.wanted? old (.equality path token)).isSome = true)

variable {c c' : Content} {d : Entities} {m : KeyspaceModel} {e n : Entity} {id : String}
  {owned : BackRefs}

theorem Consistent.contains_owned (h : Consistent c d) (hk : IsName m.name) {old : Option Entity}
    (hl : (Task.load m.name id).on c = .ok old)
    (ho : (BackRefs.owned Batch.empty m id old).on c = .ok owned) {s : Slot} {r : IndexRef}
    (hr : s.ref? m.name id = some r) :
    owned.contains r = true ↔
      (∃ b, ∃ refs : BackRefs, c.get? (Key.backRefs m.name id) = some b ∧ decode b = .ok refs ∧
        refs.contains r = true) ∨
      (c.get? (Key.backRefs m.name id) = none ∧
        ∃ fields, d.get? m.name id = some fields ∧ (m.wanted? fields s).isSome = true) := by
  rcases BackRefs.on_owned_eq_ok ho with ⟨b, hb, hdec⟩ | ⟨hn, rfl⟩
  · constructor
    · exact fun hc => Or.inl ⟨b, owned, hb, hdec, hc⟩
    · rintro (⟨b', refs, hb', hdec', hc⟩ | ⟨hn, -⟩)
      · cases hb.symm.trans hb'
        cases hdec.symm.trans hdec'
        exact hc
      · cases hb.symm.trans hn
  · rw [h.load_eq hk hl]
    constructor
    · intro hc
      cases hd : d.get? m.name id with
      | none => simp [hd] at hc
      | some fields =>
        rw [hd, Option.map_some, Option.elim_some,
          KeyspaceModel.contains_refs_of_ref? fields hr] at hc
        exact Or.inr ⟨hn, fields, rfl, hc⟩
    · rintro (⟨b, refs, hb, -⟩ | ⟨-, fields, hd, he⟩)
      · cases hb.symm.trans hn
      · rw [hd, Option.map_some, Option.elim_some, KeyspaceModel.contains_refs_of_ref? fields hr]
        exact he

namespace Saved

theorem missing_iff (h : Saved m e id c c' n owned) (hc : Consistent c d) (hk : IsName m.name)
    {path token : String} (he : (m.wanted? n.fields (.equality path token)).isSome = true) :
    c'.get? (Key.equality m.name path token id) = none ↔ Skips c d m id path token := by
  obtain ⟨old, hl, ho⟩ := h.owns
  have htaken := hc.contains_owned hk hl ho (s := .equality path token) rfl
  rw [h.get?_equality_eq_none (hc.owns hk h.id_ne hl ho).own he, htaken]
  exact ⟨fun ⟨ht, hm⟩ => ⟨hm, ht⟩, fun ⟨hm, ht⟩ => ⟨ht, hm⟩⟩

theorem complete_iff (h : Saved m e id c c' n owned) (hc : Consistent c d) (hk : IsName m.name) :
    (∀ (slot : Slot) (r : IndexRef), slot.ref? m.name id = some r →
      c'.get? r.key = m.wanted? n.fields slot) ↔
    ∀ path token, (m.wanted? n.fields (.equality path token)).isSome = true →
      ¬Skips c d m id path token := by
  constructor
  · intro hall path token he hs
    have hget := hall (.equality path token) _ rfl
    rw [IndexRef.key, (h.missing_iff hc hk he).mpr hs] at hget
    rw [← hget] at he
    cases he
  · intro hskip slot r hr
    obtain ⟨old, hl, ho⟩ := h.owns
    have hfilled := h.filled (hc.owns hk h.id_ne hl ho) (fun path token he howned hm =>
      hskip path token he
        ⟨hm, (hc.contains_owned hk hl ho (s := .equality path token) rfl).mp howned⟩) slot
    rw [← Slot.key_of_ref? hr, hfilled]
    cases slot <;> first | rfl | cases hr

end Saved

/-- After every history, whatever schemas it went through, a save that succeeds stores the list
of the entries that its record asks for, leaves no other entry and writes every geo entry. It
leaves out the equality entries that it skips and no others. -/
theorem save_complete_iff (faults : Faults) (supply : IdSupply) (journal : Journal)
    (history : List (Database × Op)) :
    let t := (Tracked.fresh faults supply journal).replay history
    ∀ (db : Database) (e : Entity) (id : String) (s s' : Engine),
      s.content = t.engine.content → db.save e s = (.ok id, s') →
      ∃ m n, db.schema.model e.keyspace = .ok m ∧ m.normalize e = .ok n ∧
        s'.content.get? (Key.record m.name id) = some (payload (StoredRecord.mk n.fields)) ∧
        s'.content.get? (Key.backRefs m.name id) = (m.refs n.fields id).stored ∧
        (∀ (slot : Slot) (r : IndexRef) (b : Bytes), slot.ref? m.name id = some r →
          s'.content.get? r.key = some b → m.wanted? n.fields slot = some b) ∧
        (∀ path, s'.content.get? (Key.geo m.name path id) = m.wanted? n.fields (.geo path)) ∧
        (∀ path token, (m.wanted? n.fields (.equality path token)).isSome = true →
          (s'.content.get? (Key.equality m.name path token id) = none ↔
            Skips s.content t.entities m id path token)) ∧
        ((∀ (slot : Slot) (r : IndexRef), slot.ref? m.name id = some r →
            s'.content.get? r.key = m.wanted? n.fields slot) ↔
          ∀ path token, (m.wanted? n.fields (.equality path token)).isSome = true →
            ¬Skips s.content t.entities m id path token) := by
  intro t db e id s s' hs hrun
  have hc : Consistent s.content t.entities := by
    rw [hs]
    exact Tracked.consistent_replay faults supply journal history
  obtain ⟨m, n, owned, hm, hsaved⟩ := Database.save_eq_ok hrun
  have hk := Schema.isName_of_model hm
  obtain ⟨old, hl, ho⟩ := hsaved.owns
  have howns := hc.owns hk hsaved.id_ne hl ho
  refine ⟨m, n, hm, hsaved.normalized, hsaved.get?_record, hsaved.get?_backRefs, ?_,
    hsaved.geo_eq howns, ?_, hsaved.complete_iff hc hk⟩
  · intro slot r b hr hb
    exact hsaved.wanted?_of_get? howns hr hb
  · intro path token he
    exact hsaved.missing_iff hc hk he

/-- An entity that was stored before its path was indexed, and is then saved again unchanged,
is given no entry and is not found. -/
theorem save_skips_after_indexing :
    let t := (Tracked.fresh Faults.none .none []).replay
      [(.indexing [] rfl, .save OrderedEntity.sample)]
    let r := Database.save (.indexing ["f"] rfl) OrderedEntity.sample.val t.engine
    r.1.toOption = some "1" ∧
      r.2.content.get? (Key.equality "k" "f" "x" "1") = none ∧
      (Database.executeIds (.indexing ["f"] rfl) (.filtered "k" (.eq "f" (.text "x")))
        r.2).1.toOption = some ⟨[], 0⟩ := by
  intro t r
  have hok : r.1.toOption = some "1" := by decide +kernel
  refine ⟨hok, ?_, by decide +kernel⟩
  obtain ⟨m, n, hm, hn, -, -, -, -, hmissing, -⟩ :=
    save_complete_iff Faults.none .none [] [(.indexing [] rfl, .save OrderedEntity.sample)]
      (.indexing ["f"] rfl) OrderedEntity.sample.val "1" t.engine r.2 rfl (Task.run_of_toOption hok)
  cases hm
  cases hn
  exact (hmissing "f" "x" rfl).mpr ⟨by decide +kernel, Or.inr ⟨by decide +kernel, _, rfl, rfl⟩⟩

end IndexedStore
