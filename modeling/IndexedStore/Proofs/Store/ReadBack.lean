import IndexedStore.Proofs.Operation.Atomic
import IndexedStore.Proofs.Store.Served

/-! # Reading back what was saved

A save does not look at how deep its record nests. Main statement: what was saved can be
found and deleted exactly when it nests no deeper than is read, and is reported as corrupt
otherwise.
-/
namespace IndexedStore

open Key (IsName)

theorem Saved.not_stuck {m : KeyspaceModel} {e n : Entity} {id : String} {c c' : Content}
    {owned : BackRefs} (h : Saved m e id c c' n owned) : ¬Stuck c' m id n.fields := by
  have hw : Writable m ⟨m.name, some id, n.fields⟩ id := h.writable.congr rfl
  exact not_stuck_iff.mpr fun _ => hw.derives

/-- An unreadable record is reported as corrupt by a search for its id and by a delete. -/
theorem Consistent.corrupt_of_deep {s : Engine} {d : Entities} (h : Consistent s.content d)
    (hb : s.content.Bounded) (hs : s.faults = Faults.none) {db : Database} {m : KeyspaceModel}
    {id : String} {fields : Fields} (hm : db.schema.model m.name = .ok m)
    (hd : d.get? m.name id = some fields) (hr : ¬fields.Readable) :
    (db.findById m.name id s).1 =
        .error (.corruption (Key.record m.name id) (.undecodable .malformed)) ∧
      (db.deleteById m.name id s).1 =
        .error (.corruption (Key.record m.name id) (.undecodable .malformed)) := by
  have hload := h.load_of_live hb (Schema.isName_of_model hm) hd
  rw [if_neg hr] at hload
  constructor
  · rw [Database.findById_fst hs hm, hload]
    rfl
  · rw [Database.deleteById_fst hm]
    exact Database.deleteUnder_of_load_error (s := s.log _) hs hload

/-- After every history, what a save on a healthy backing store has accepted is found under its
id with the normalized fields, references resolved, exactly when its record and the entities
that it refers to nest no deeper than is read; it can be deleted exactly when its record nests
no deeper. A record that nests deeper is reported as corrupt by both. -/
theorem reads_back_iff (faults : Faults) (supply : IdSupply) (journal : Journal)
    (history : List (Database × Op)) :
    let t := (Tracked.fresh faults supply journal).replay history
    ∀ (db : Database) (e : OrderedEntity) (id : String) (s s' : Engine),
      s.content = t.engine.content → s.faults = Faults.none →
      db.save e.val s = (.ok id, s') →
      ∃ m n, db.schema.model e.val.keyspace = .ok m ∧ m.normalize e.val = .ok n ∧
        let d := t.entities.put m.name id n.fields
        (∀ o, (db.findById e.val.keyspace id s').1 = .ok o ↔
          o = some (d.resolved m.references ⟨m.name, some id, n.fields⟩) ∧
            n.fields.Readable ∧ d.Resolvable m.references n.fields) ∧
        (∀ removed, (db.deleteById e.val.keyspace id s').1 = .ok removed ↔
          removed = true ∧ n.fields.Readable) ∧
        (¬n.fields.Readable →
          (db.findById e.val.keyspace id s').1 =
              .error (.corruption (Key.record m.name id) (.undecodable .malformed)) ∧
            (db.deleteById e.val.keyspace id s').1 =
              .error (.corruption (Key.record m.name id) (.undecodable .malformed))) := by
  intro t db e id s s' hcontent hs hrun
  obtain ⟨hc, hb⟩ := Tracked.stands_replay faults supply journal history hcontent
  obtain ⟨m, n, owned, hm, hsaved⟩ := Database.save_eq_ok hrun
  have hordered := (KeyspaceModel.normalize_eq_ok hsaved.normalized).2.2 e.property
  have hc' := hsaved.consistent hc (Schema.isName_of_model hm) hordered
  have hb' := hsaved.bounded hb
  have hs' : s'.faults = Faults.none := by
    have hkept := (db.allOrNothing_save e.val).calls.faults s
    rw [hrun] at hkept
    exact hkept.trans hs
  have hlive : (t.entities.put m.name id n.fields).get? m.name id = some n.fields := by
    rw [Entities.get?_put, if_pos ⟨rfl, rfl⟩]
  have hname := Schema.name_of_model hm
  have hm' : db.schema.model m.name = .ok m := by
    rw [hname]
    exact hm
  refine ⟨m, n, hm, hsaved.normalized, ?_⟩
  rw [← hname]
  refine ⟨fun o => hc'.findById_eq_ok hb' hs' hm' hlive, fun removed => ?_,
    hc'.corrupt_of_deep hb' hs' hm' hlive⟩
  rw [hc'.deleteById_eq_ok hb' hs' hm' hlive]
  simp [hsaved.not_stuck]

/-- A field map inside a field map, `n` times. -/
def Fields.nested : Nat → Fields
  | 0 => []
  | n + 1 => [("k", .embedded (nested n))]

namespace Fields

theorem ordered_nested (n : Nat) : (nested n).Ordered := by
  induction n with
  | zero => exact ⟨List.Pairwise.nil, trivial⟩
  | succ n ih => exact ⟨List.pairwise_singleton _ _, ih, trivial⟩

/-- Of field maps inside one another 62 levels are read. -/
theorem readable_nested_iff (n : Nat) : (nested n).Readable ↔ n ≤ 62 := by
  have hdepth : ∀ n, Value.fieldsDepth (nested n) = 2 * n := by
    intro n
    induction n with
    | zero => rfl
    | succ n ih => simp [nested, Value.fieldsDepth, Value.depth, ih]; omega
  have hmax : Cbor.maxNesting = 127 := rfl
  unfold Readable
  rw [Value.depth, hdepth, hmax]
  omega

end Fields

/-- A record of 63 levels is accepted, and is corrupt for a search and for a delete. -/
theorem save_accepts_too_deep :
    let e : OrderedEntity := ⟨⟨"k", some "1", Fields.nested 63⟩, Fields.ordered_nested 63⟩
    let r := Database.save (.indexing [] rfl) e.val Engine.empty
    r.1.toOption = some "1" ∧
      (Database.findById (.indexing [] rfl) "k" "1" r.2).1 =
        .error (.corruption "k:1" (.undecodable .malformed)) ∧
      (Database.deleteById (.indexing [] rfl) "k" "1" r.2).1 =
        .error (.corruption "k:1" (.undecodable .malformed)) := by
  intro e r
  have hok : r.1.toOption = some "1" := by decide +kernel
  refine ⟨hok, ?_⟩
  have hdeep : ¬(Fields.nested 63).Readable := by
    rw [Fields.readable_nested_iff]
    omega
  obtain ⟨m, n, hm, hn, -, -, hcorrupt⟩ :=
    reads_back_iff Faults.none .none [] [] (.indexing [] rfl) e "1" Engine.empty r.2 rfl rfl
      (Task.run_of_toOption hok)
  cases hm
  cases hn
  exact hcorrupt hdeep

end IndexedStore
