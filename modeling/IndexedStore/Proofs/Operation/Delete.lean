import IndexedStore.Operation.Delete
import IndexedStore.Proofs.Index.Stage
import IndexedStore.Proofs.Storage.Scan

/-! # What a delete removes

A delete that fails leaves the content as it was. One that succeeds removes the record, the
membership marker, the list of owned entries and these entries; emptying a keyspace removes
every key that starts with its name.
-/
namespace IndexedStore

open IndexedStore.Task (Reading FailSafe Keeps Total)

/-- A successful delete takes the content `c` to `c'`. -/
structure Deleted (m : KeyspaceModel) (id : String) (c c' : Content) (old : Option Entity)
    (owned : BackRefs) : Prop where
  loads : (Task.load m.name id).on c = .ok old
  owns : (BackRefs.owned Batch.empty m id old).on c = .ok owned
  removes : (old = none ∧ owned.isEmpty = true ∧ c' = c) ∨
    ∀ k, c'.get? k =
      if k = Key.member m.name id ∨ k = Key.record m.name id ∨ k = Key.backRefs m.name id ∨
        k ∈ owned.toList.map IndexRef.key then none else c.get? k

theorem IndexPlan.planned_forDelete (owned : BackRefs) (keyspace id k : String) :
    (forDelete owned).planned keyspace id k =
      if Key.backRefs keyspace id = k ∨ k ∈ owned.toList.map IndexRef.key then some none
      else none := by
  unfold planned forDelete
  by_cases hk : Key.backRefs keyspace id = k
  · simp [hk, BackRefs.isEmpty_iff]
  · simp [hk, Assoc.lookup]

namespace Database

theorem deleteUnder_eq_ok {db : Database} {m : KeyspaceModel} {id : String} {removed : Bool}
    {s s' : Engine} (h : db.deleteUnder m id s = (.ok removed, s')) :
    ∃ old owned, removed = old.isSome ∧ Deleted m id s.content s'.content old owned := by
  unfold deleteUnder at h
  obtain ⟨old, s₁, hl, h⟩ := Task.bind_eq_ok h
  obtain ⟨hs₁, hold⟩ := (Task.reading_load _ _).run_ok hl
  obtain ⟨owned, s₂, ho, h⟩ := Task.bind_eq_ok h
  obtain ⟨hs₂, howned⟩ := (BackRefs.reading_owned _ _ _).run_ok ho
  rw [hs₁.content] at howned
  have hsame := hs₁.trans hs₂
  split at h
  · rename_i hnone
    simp only [Bool.and_eq_true, Option.isNone_iff_eq_none] at hnone
    cases h
    refine ⟨old, owned, by rw [hnone.1]; rfl, hold, howned, Or.inl ⟨hnone.1, hnone.2, ?_⟩⟩
    exact hsame.content
  · obtain ⟨b, s₃, hb, h⟩ := Task.bind_eq_ok h
    obtain ⟨hs₃, -⟩ := (IndexPlan.reading_stage _ _ _ _).run_ok hb
    have hstaged := IndexPlan.stage_eq_ok List.Pairwise.nil hb
    obtain ⟨u, s₄, hc, h⟩ := Task.bind_eq_ok h
    obtain ⟨writes, s₅, hc, hu⟩ := Task.bind_eq_ok hc
    obtain ⟨hcontent, -⟩ := Task.commit_run_ok hc
    cases hu
    cases h
    refine ⟨old, owned, rfl, hold, howned, Or.inr fun k => ?_⟩
    show s₄.content.get? k = _
    rw [hcontent, Batch.staged_delete, Batch.staged_delete, hstaged, Batch.staged_empty,
      Option.or_none, IndexPlan.planned_forDelete, hs₃.content, hsame.content]
    grind

theorem failSafe_deleteUnder (db : Database) (m : KeyspaceModel) (id : String) :
    FailSafe (db.deleteUnder m id) := by
  unfold deleteUnder
  refine (Task.reading_load _ _).keeps.bind_failSafe fun old => ?_
  refine (BackRefs.reading_owned _ _ _).keeps.bind_failSafe fun owned => ?_
  cases old.isNone && owned.isEmpty with
  | true => exact ((Reading.note _ _).bind fun _ => Reading.pure _).failSafe
  | false =>
    refine (IndexPlan.reading_stage _ _ _ _).keeps.bind_failSafe fun b => ?_
    have hcommit := (Task.failSafe_commit ((b.delete (Key.record m.name id)).delete
      (Key.member m.name id))).bind_total fun n s => ⟨PUnit.unit, s, rfl⟩
    exact hcommit.bind_total fun _ s => ⟨_, _, rfl⟩

theorem deleteById_eq_ok {db : Database} {keyspace id : String} {removed : Bool} {s s' : Engine}
    (h : db.deleteById keyspace id s = (.ok removed, s')) :
    ∃ m old owned, db.schema.model keyspace = .ok m ∧ removed = old.isSome ∧
      Deleted m id s.content s'.content old owned := by
  obtain ⟨m, s₁, hm, h⟩ := Task.bind_eq_ok h
  obtain ⟨s₂, hdelete, hsame⟩ := Task.spanned_run h
  obtain ⟨old, owned, hr, hdeleted⟩ := deleteUnder_eq_ok hdelete
  have hs₁ : s = s₁ := congrArg Prod.snd hm
  rw [← hsame.content, ← hs₁] at hdeleted
  exact ⟨m, old, owned, congrArg Prod.fst hm, hr, hdeleted⟩

theorem failSafe_deleteById (db : Database) (keyspace id : String) :
    FailSafe (db.deleteById keyspace id) :=
  (Reading.ofExcept _).keeps.bind_failSafe fun m => (db.failSafe_deleteUnder m id).spanned

theorem flush_eq_ok {db : Database} {m : KeyspaceModel} {n : Nat} {s s' : Engine}
    (h : db.flush m s = (.ok n, s')) :
    (∃ ids, (Task.members m.name).on s.content = .ok ids ∧ n = ids.size) ∧
      ∀ k, s'.content.get? k =
        if Key.hasPrefix (Key.keyspacePrefix m.name) k then none else s.content.get? k := by
  unfold flush at h
  obtain ⟨ids, s₁, hi, h⟩ := Task.bind_eq_ok h
  obtain ⟨hs₁, hids⟩ := (Task.reading_scanIds _).run_ok hi
  obtain ⟨found, s₂, hf, h⟩ := Task.bind_eq_ok h
  obtain ⟨hs₂, hfound⟩ := (Reading.scan _).run_ok hf
  obtain ⟨writes, s₃, hc, h⟩ := Task.bind_eq_ok h
  obtain ⟨hcontent, -⟩ := Task.commit_run_ok hc
  rw [Task.on_scan, hs₁.content] at hfound
  cases h
  refine ⟨⟨ids, hids, rfl⟩, fun k => ?_⟩
  have hmem : k ∈ found.map Prod.fst ↔
      (∃ b, s.content.get? k = some b) ∧
        Key.hasPrefix (Key.keyspacePrefix m.name) k = true := by
    rw [← Except.ok.inj hfound]
    simp [Content.mem_scan]
  show s₃.content.get? k = _
  rw [hcontent, Batch.staged_deleteAll, Batch.staged_empty, hs₂.content, hs₁.content]
  cases hk : s.content.get? k with
  | none => split <;> split <;> rfl
  | some b =>
    simp only [hk, Option.some.injEq, exists_eq', true_and] at hmem
    simp only [hmem]
    split <;> rfl

/-- Emptying a keyspace counts its membership markers and removes all its keys. -/
theorem deleteAll_eq_ok {db : Database} {keyspace : String} {n : Nat} {s s' : Engine}
    (h : db.deleteAll keyspace s = (.ok n, s')) :
    ∃ m, db.schema.model keyspace = .ok m ∧
      (∃ ids, (Task.members m.name).on s.content = .ok ids ∧ n = ids.size) ∧
      ∀ k, s'.content.get? k =
        if Key.hasPrefix (Key.keyspacePrefix m.name) k then none else s.content.get? k := by
  obtain ⟨m, s₁, hm, h⟩ := Task.bind_eq_ok h
  obtain ⟨s₂, hflush, hsame⟩ := Task.spanned_run h
  have hs₁ : s = s₁ := congrArg Prod.snd hm
  have hf := flush_eq_ok hflush
  rw [← hsame.content, ← hs₁] at hf
  exact ⟨m, congrArg Prod.fst hm, hf⟩

theorem failSafe_deleteAll (db : Database) (keyspace : String) :
    FailSafe (db.deleteAll keyspace) := by
  refine (Reading.ofExcept _).keeps.bind_failSafe fun m => FailSafe.spanned ?_
  unfold flush
  refine (Task.reading_scanIds _).keeps.bind_failSafe fun ids => ?_
  refine (Reading.scan _).keeps.bind_failSafe fun found => ?_
  exact (Task.failSafe_commit _).bind_total fun _ s => ⟨_, _, rfl⟩

end Database

end IndexedStore
