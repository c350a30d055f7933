import IndexedStore.Proofs.Operation.Delete
import IndexedStore.Proofs.Operation.Save

/-! # Writes on a healthy backing store

When no call fails, whether a write succeeds is decided by what it reads and by what it is
given. A delete needs the old record and the entries that the entity owns. A save needs these
and an entity that is acceptable in itself.
-/
namespace IndexedStore

open IndexedStore.Task (Reading)

namespace Task

variable {α β : Type}

theorem Reading.run_healthy {t : Task α} (ht : Reading t) {s : Engine}
    (hs : s.faults = Faults.none) : ∃ s', t s = (t.on s.content, s') ∧ s.Same s' :=
  ⟨(t s).2, Prod.ext (ht.healthy s hs) rfl, ht.same s⟩

theorem exists_commit (b : Batch) {s : Engine} (hs : s.faults = Faults.none) :
    ∃ n s', b.commit s = (.ok n, s') := by
  unfold Batch.commit
  cases b.writes.isEmpty with
  | true => exact ⟨_, s, rfl⟩
  | false =>
    have hb : (batch b.writes s).1 = .ok () := by
      unfold batch perform
      rw [hs]
      rfl
    simp only [Bool.not_false, if_true]
    exact ⟨_, _, bind_run_ok (Prod.ext hb rfl)⟩

theorem spanned_fst (kind : ExecKind) (keyspace : String) (rows : α → Nat) (body : Task α)
    (s : Engine) : (spanned kind keyspace rows body s).1 =
      (body (s.log (.event (.started kind keyspace)))).1 := rfl

end Task

namespace Database

variable {db : Database} {m : KeyspaceModel} {s : Engine}

theorem model_run {keyspace : String} (hm : db.schema.model keyspace = .ok m) (s : Engine) :
    db.model keyspace s = (.ok m, s) := by
  unfold model
  rw [hm]
  rfl

theorem deleteById_fst {keyspace : String} (hm : db.schema.model keyspace = .ok m) (id : String)
    (s : Engine) : (db.deleteById keyspace id s).1 =
      (db.deleteUnder m id (s.log (.event (.started .delete m.name)))).1 := by
  unfold deleteById
  rw [Task.bind_run_ok (model_run hm s), Task.spanned_fst]

theorem save_fst {e : Entity} (hm : db.schema.model e.keyspace = .ok m) (s : Engine) :
    (db.save e s).1 = (db.saveUnder m e (s.log (.event (.started .save m.name)))).1 := by
  unfold save
  rw [Task.bind_run_ok (model_run hm s), Task.spanned_fst]

theorem deleteUnder_of_load_error {id : String} {x : Error} (hs : s.faults = Faults.none)
    (hl : (Task.load m.name id).on s.content = .error x) : (db.deleteUnder m id s).1 = .error x := by
  obtain ⟨s₁, hrun, -⟩ := (Task.reading_load m.name id).run_healthy hs
  rw [hl] at hrun
  unfold deleteUnder
  rw [Task.bind_run_error hrun]

theorem reads_run {id : String} {old : Option Entity} {owned : BackRefs}
    (hs : s.faults = Faults.none) (hl : (Task.load m.name id).on s.content = .ok old)
    (ho : (BackRefs.owned Batch.empty m id old).on s.content = .ok owned) :
    ∃ s₁ s₂, Task.load m.name id s = (.ok old, s₁) ∧
      BackRefs.owned Batch.empty m id old s₁ = (.ok owned, s₂) ∧ s₂.faults = Faults.none := by
  obtain ⟨s₁, hload, hsame⟩ := (Task.reading_load m.name id).run_healthy hs
  have hs₁ : s₁.faults = Faults.none := hsame.faults.trans hs
  obtain ⟨s₂, howned, hsame'⟩ := (BackRefs.reading_owned m id old).run_healthy hs₁
  rw [hl] at hload
  rw [hsame.content, ho] at howned
  exact ⟨s₁, s₂, hload, howned, hsame'.faults.trans hs₁⟩

theorem deleteUnder_fst {id : String} {old : Option Entity} {owned : BackRefs}
    (hs : s.faults = Faults.none) (hl : (Task.load m.name id).on s.content = .ok old)
    (ho : (BackRefs.owned Batch.empty m id old).on s.content = .ok owned) :
    (db.deleteUnder m id s).1 = .ok old.isSome := by
  obtain ⟨s₁, s₂, hload, howned, hs₂⟩ := reads_run hs hl ho
  unfold deleteUnder
  rw [Task.bind_run_ok hload, Task.bind_run_ok howned]
  cases hnone : old.isNone && owned.isEmpty with
  | true =>
    simp only [Bool.and_eq_true, Option.isNone_iff_eq_none] at hnone
    rw [hnone.1]
    rfl
  | false =>
    simp only [Bool.false_eq_true, if_false]
    obtain ⟨b, s₃, hb⟩ := IndexPlan.exists_stage (p := IndexPlan.forDelete owned)
      (fun h => nomatch h) Batch.empty m.name id s₂
    have hsame₃ := ((IndexPlan.reading_stage _ _ _ _).run_ok hb).1
    obtain ⟨n, s₄, hc⟩ := Task.exists_commit
      ((b.delete (Key.record m.name id)).delete (Key.member m.name id)) (hsame₃.faults.trans hs₂)
    have hdiscard : (discard ((b.delete (Key.record m.name id)).delete
        (Key.member m.name id)).commit : Task Unit) s₃ = (.ok (), s₄) := Task.bind_run_ok hc
    rw [Task.bind_run_ok hb, Task.bind_run_ok hdiscard]
    rfl

/-- A delete succeeds when the old record and the owned entries can be told, and says whether
there was a record. -/
theorem deleteById_fst_eq_ok {keyspace id : String} {removed : Bool}
    (hs : s.faults = Faults.none) (hm : db.schema.model keyspace = .ok m) :
    (db.deleteById keyspace id s).1 = .ok removed ↔
      ∃ old owned, (Task.load m.name id).on s.content = .ok old ∧
        (BackRefs.owned Batch.empty m id old).on s.content = .ok owned ∧ removed = old.isSome := by
  constructor
  · intro h
    obtain ⟨m', old, owned, hm', hr, hd⟩ := deleteById_eq_ok (Prod.ext h rfl)
    cases hm.symm.trans hm'
    exact ⟨old, owned, hd.loads, hd.owns, hr⟩
  · rintro ⟨old, owned, hl, ho, rfl⟩
    rw [deleteById_fst hm]
    exact deleteUnder_fst (s := s.log _) hs hl ho

theorem saveUnder_fst {e n : Entity} {id : String} {old : Option Entity} {owned : BackRefs}
    (hs : s.faults = Faults.none) (hid : e.id = some id) (ha : Acceptable m e id n)
    (hl : (Task.load m.name id).on s.content = .ok old)
    (ho : (BackRefs.owned Batch.empty m id old).on s.content = .ok owned) :
    (db.saveUnder m e s).1 = .ok id := by
  have hnorm : Task.ofExcept (m.normalize e) s = (.ok n, s) := by
    rw [ha.normalized]
    rfl
  have hnid : n.id = some id := (KeyspaceModel.normalize_eq_ok ha.normalized).2.1.trans hid
  obtain ⟨s₁, s₂, hload, howned, hs₂⟩ := reads_run hs hl ho
  obtain ⟨⟨p, b⟩, s₃, hb⟩ := exists_stageSave ha.writable owned s₂
  have hsame₃ := ((reading_stageSave _ _ _ _).run_ok hb).1
  obtain ⟨k, s₄, hc⟩ := Task.exists_commit b (hsame₃.faults.trans hs₂)
  unfold saveUnder
  rw [Task.bind_run_ok hnorm]
  simp only [ha.valid]
  rw [Task.bind_run_ok (chooseId_some hnid ha.id_ne s), Task.bind_run_ok hload,
    Task.bind_run_ok howned, Task.bind_run_ok hb]
  dsimp only
  rw [Task.bind_run_ok hc]
  rfl

/-- A save of an entity with an id succeeds when the entity is acceptable and the old record
and the owned entries can be told. -/
theorem save_fst_eq_ok {e : Entity} {id : String} (hs : s.faults = Faults.none)
    (hm : db.schema.model e.keyspace = .ok m) (hid : e.id = some id) :
    (db.save e s).1 = .ok id ↔
      (∃ n, Acceptable m e id n) ∧ ∃ old owned, (Task.load m.name id).on s.content = .ok old ∧
        (BackRefs.owned Batch.empty m id old).on s.content = .ok owned := by
  constructor
  · intro h
    obtain ⟨m', n, owned, hm', hsaved⟩ := save_eq_ok (Prod.ext h rfl)
    cases hm.symm.trans hm'
    obtain ⟨old, hl, ho⟩ := hsaved.owns
    exact ⟨⟨n, hsaved.toAcceptable⟩, old, owned, hl, ho⟩
  · rintro ⟨⟨n, ha⟩, old, owned, hl, ho⟩
    rw [save_fst hm]
    exact saveUnder_fst (s := s.log _) hs hid ha hl ho

end Database

end IndexedStore
