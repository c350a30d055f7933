import IndexedStore.Proofs.Operation.Delete
import IndexedStore.Proofs.Operation.Save
import IndexedStore.Proofs.Storage.Calls
import IndexedStore.Typed.Repository

/-! # Writes take effect as a whole or not at all

Every write reads first and ends with one batch. Whatever the content is and whichever calls
fail, a write that fails has changed nothing, and of a row of saves exactly those before the
failing one have taken effect.
-/
namespace IndexedStore

open IndexedStore.Task (Makes FailSafe)

namespace Task

/-- A write that makes its one change with its last call, and none when it fails. -/
structure AllOrNothing {α : Type} (t : Task α) : Prop where
  calls : Makes WritesLast t
  failSafe : FailSafe t

theorem makes_decodeAt {α : Type} [Storable α] (key : String) (b : Bytes) :
    Makes ReadsOnly (decodeAt key b : Task α) := (Makes.ofExcept _).reads

theorem makes_load (keyspace id : String) : Makes ReadsOnly (load keyspace id) := by
  refine (Makes.get _).reads_bind fun o => ?_
  cases o with
  | none => exact (Makes.pure _).reads
  | some b => exact (makes_decodeAt _ _).reads_bind fun r => (Makes.pure _).reads

theorem makes_members (keyspace : String) : Makes ReadsOnly (members keyspace) :=
  (Makes.scan _).reads_bind fun _ => (Makes.pure _).reads

theorem makes_commit (b : Batch) : Makes WritesLast b.commit := by
  unfold Batch.commit
  cases b.writes.isEmpty with
  | true => exact (Makes.pure _).reads.writes
  | false => exact (Makes.batch _).writes_bind fun _ => Makes.pure _

end Task

theorem BackRefs.makes_owned (m : KeyspaceModel) (id : String) (old : Option Entity) :
    Makes ReadsOnly (owned Batch.empty m id old) := by
  refine Makes.reads_bind (t := Batch.empty.read? (Key.backRefs m.name id)) ?_ fun o => ?_
  · refine (Makes.get _).reads_bind fun o => ?_
    cases o with
    | none => exact (Makes.pure _).reads
    | some b => exact (Task.makes_decodeAt _ b).reads_bind fun _ => (Makes.pure _).reads
  · cases o with
    | some r => exact (Makes.pure r).reads
    | none =>
      cases old with
      | none => exact (Makes.pure _).reads
      | some e => exact (Makes.ofExcept _).reads

namespace Batch

variable {α : Type} [Storable α]

theorem makes_store (b : Batch) (key : String) (a : α) : Makes (· = []) (b.store key a) :=
  (Makes.ofExcept _).none_bind fun _ => Makes.pure _

theorem makes_stores (l : List (String × α)) (b : Batch) :
    Makes (· = []) (l.foldlM (fun b g => b.store g.1 g.2) b : Task Batch) := by
  induction l generalizing b with
  | nil => exact Makes.pure b
  | cons g l ih => exact (makes_store b g.1 g.2).none_bind ih

end Batch

theorem IndexPlan.makes_stage (p : IndexPlan) (b : Batch) (keyspace id : String) :
    Makes (· = []) (p.stage b keyspace id) := by
  refine (Batch.makes_stores _ _).none_bind fun b' => ?_
  have hemit : ∀ b'' : Batch, Makes (· = []) (do
      Task.emit (.indexed keyspace (UInt64.ofNat p.inserts) (UInt64.ofNat p.removes))
      return b'') := fun b'' => (Makes.emit _).none_bind fun _ => Makes.pure _
  by_cases hr : p.refs.isEmpty = true
  · simp only [hr, if_true]
    exact (Makes.pure _).none_bind hemit
  · simp only [hr]
    exact (Batch.makes_store _ _ _).none_bind hemit

namespace Database

theorem makes_chooseId (m : KeyspaceModel) (e : Entity) : Makes (· = []) (chooseId m e) :=
  Makes.of_added (fun s => by rw [chooseId_state]) fun s =>
    ⟨[], by rw [chooseId_state]; rfl, fun _ => List.not_mem_nil⟩

theorem makes_stageSave (m : KeyspaceModel) (owned : BackRefs) (e : Entity) (id : String) :
    Makes (· = []) (stageSave m owned e id) :=
  (Makes.ofExcept _).none_bind fun p => (p.makes_stage _ _ _).none_bind fun b =>
    (b.makes_store _ _).none_bind fun _ => Makes.pure _

theorem makes_saveUnder (db : Database) (m : KeyspaceModel) (e : Entity) :
    Makes WritesLast (db.saveUnder m e) := by
  unfold saveUnder
  refine (Makes.ofExcept _).reads.reads_bind_writes fun n => ?_
  cases n.invalidPoint? with
  | some p => exact (Makes.ofExcept (.error (.invalidCoordinate p))).reads.writes
  | none =>
    refine (makes_chooseId m n).reads.reads_bind_writes fun id => ?_
    refine (Task.makes_load _ _).reads_bind_writes fun old => ?_
    refine (BackRefs.makes_owned _ _ _).reads_bind_writes fun owned => ?_
    refine (makes_stageSave _ _ _ _).reads.reads_bind_writes fun pb => ?_
    refine (Task.makes_commit _).writes_bind fun writes => ?_
    exact (Makes.note _ _).none_bind fun _ => Makes.pure id

theorem makes_deleteUnder (db : Database) (m : KeyspaceModel) (id : String) :
    Makes WritesLast (db.deleteUnder m id) := by
  unfold deleteUnder
  refine (Task.makes_load _ _).reads_bind_writes fun old => ?_
  refine (BackRefs.makes_owned _ _ _).reads_bind_writes fun owned => ?_
  cases old.isNone && owned.isEmpty with
  | true => exact ((Makes.note _ _).none_bind fun _ => Makes.pure false).reads.writes
  | false =>
    refine (IndexPlan.makes_stage _ _ _ _).reads.reads_bind_writes fun b => ?_
    refine ((Task.makes_commit _).writes_bind fun _ => Makes.pure _).writes_bind fun _ => ?_
    exact (Makes.note _ _).none_bind fun _ => Makes.pure _

theorem makes_flush (db : Database) (m : KeyspaceModel) : Makes WritesLast (db.flush m) := by
  refine (Task.makes_members _).reads_bind_writes fun ids => ?_
  refine (Makes.scan _).reads_bind_writes fun found => ?_
  refine (Task.makes_commit _).writes_bind fun writes => ?_
  exact (Makes.note _ _).none_bind fun _ => Makes.pure _

theorem allOrNothing_save (db : Database) (e : Entity) : (db.save e).AllOrNothing where
  calls := (Makes.ofExcept _).reads.reads_bind_writes fun m => (db.makes_saveUnder m e).spanned
  failSafe := db.failSafe_save e

theorem allOrNothing_deleteById (db : Database) (keyspace id : String) :
    (db.deleteById keyspace id).AllOrNothing where
  calls := (Makes.ofExcept _).reads.reads_bind_writes fun m => (db.makes_deleteUnder m id).spanned
  failSafe := db.failSafe_deleteById keyspace id

theorem allOrNothing_deleteAll (db : Database) (keyspace : String) :
    (db.deleteAll keyspace).AllOrNothing where
  calls := (Makes.ofExcept _).reads.reads_bind_writes fun m => (db.makes_flush m).spanned
  failSafe := db.failSafe_deleteAll keyspace

/-- Saving the entities one by one succeeds and gives their ids. -/
inductive Saves (db : Database) : List Entity → List String → Engine → Engine → Prop where
  | nil (s : Engine) : Saves db [] [] s s
  | cons {e : Entity} {rest : List Entity} {id : String} {ids : List String} {s s₁ s' : Engine}
      (first : db.save e s = (.ok id, s₁)) (others : Saves db rest ids s₁ s') :
      Saves db (e :: rest) (id :: ids) s s'

/-- The row of saves `l` stops with the failure `x` of an entity: those before it are saved, and
those after it are not looked at. -/
def StopsAt (db : Database) (l : List Entity) (x : Error) (s s' : Engine) : Prop :=
  ∃ done e rest ids s₁, l = done ++ e :: rest ∧ db.Saves done ids s s₁ ∧
    db.save e s₁ = (.error x, s') ∧ s'.content = s₁.content

theorem saveMany_cons (db : Database) (e : Entity) (rest : List Entity) (s : Engine) :
    db.saveMany (e :: rest) s =
      match db.save e s with
      | (.ok id, s₁) => ((db.saveMany rest s₁).1.map (id :: ·), (db.saveMany rest s₁).2)
      | (.error x, s₁) => (.error x, s₁) := by
  rw [saveMany]
  rcases hs : db.save e s with ⟨x | id, s₁⟩
  · exact Task.bind_run_error hs
  · rw [Task.bind_run_ok hs]
    dsimp only
    rcases hr : db.saveMany rest s₁ with ⟨y | ids, s₂⟩
    · exact Task.bind_run_error hr
    · exact Task.bind_run_ok hr

theorem saveMany_eq_ok {db : Database} {l : List Entity} {ids : List String} {s s' : Engine} :
    db.saveMany l s = (.ok ids, s') ↔ db.Saves l ids s s' := by
  induction l generalizing ids s with
  | nil =>
    constructor
    · intro h
      cases h
      exact .nil _
    · rintro ⟨⟩
      rfl
  | cons e rest ih =>
    rw [saveMany_cons]
    constructor
    · intro h
      rcases hs : db.save e s with ⟨x | id, s₁⟩ <;> rw [hs] at h
      · cases h
      · dsimp only at h
        rcases hr : db.saveMany rest s₁ with ⟨y | ids', s₂⟩ <;> rw [hr] at h <;> cases h
        exact .cons hs (ih.mp hr)
    · rintro ⟨⟩
      rename_i hs hr
      rw [hs]
      dsimp only
      rw [ih.mpr hr]
      rfl

theorem saveMany_eq_error {db : Database} {l : List Entity} {x : Error} {s s' : Engine} :
    db.saveMany l s = (.error x, s') ↔ db.StopsAt l x s s' := by
  induction l generalizing s with
  | nil =>
    constructor
    · intro h
      cases h
    · rintro ⟨done, e, rest, ids, s₁, hl, -⟩
      cases done <;> cases hl
  | cons e rest ih =>
    rw [saveMany_cons]
    constructor
    · intro h
      rcases hs : db.save e s with ⟨y | id, s₁⟩ <;> rw [hs] at h
      · cases h
        exact ⟨[], e, rest, [], s, rfl, .nil s, hs, db.failSafe_save e s x s' hs⟩
      · dsimp only at h
        rcases hr : db.saveMany rest s₁ with ⟨y | ids', s₂⟩ <;> rw [hr] at h <;> cases h
        obtain ⟨done, e', rest', ids, s₃, rfl, hdone, he, hc⟩ := ih.mp hr
        exact ⟨e :: done, e', rest', id :: ids, s₃, rfl, .cons hs hdone, he, hc⟩
    · rintro ⟨done, e', rest', ids, s₁, hl, hdone, he, hc⟩
      cases hdone with
      | nil =>
        cases hl
        rw [he]
      | cons hs hdone =>
        cases hl
        rw [hs]
        dsimp only
        rw [ih.mpr ⟨_, e', rest', _, s₁, rfl, hdone, he, hc⟩]
        rfl

end Database

namespace Repository

variable {α : Type} [EntityType α]

theorem saveAll_run (db : Database) (l : List α) (s : Engine) :
    saveAll db l s =
      ((db.saveMany (l.map EntityType.toEntity) s).1.map (List.zipWith EntityType.withId l),
        (db.saveMany (l.map EntityType.toEntity) s).2) := by
  induction l generalizing s with
  | nil => rfl
  | cons a rest ih =>
    rw [saveAll, List.map_cons, Database.saveMany_cons]
    rcases hs : db.save (EntityType.toEntity a) s with ⟨x | id, s₁⟩
    · have ha : save db a s = (.error x, s₁) := Task.bind_run_error hs
      exact Task.bind_run_error ha
    · have ha : save db a s = (.ok (EntityType.withId a id), s₁) := Task.bind_run_ok hs
      rw [Task.bind_run_ok ha]
      rcases hr : db.saveMany (rest.map EntityType.toEntity) s₁ with ⟨y | ids, s₂⟩
      · rw [Task.bind_run_error (by rw [ih, hr]; rfl)]
        simp only [hr]
        rfl
      · rw [Task.bind_run_ok (by rw [ih, hr]; rfl)]
        simp only [hr]
        rfl

end Repository

/-- Over every content and whichever calls fail: a save, a delete and the emptying of a keyspace
change nothing when they fail, make one batch at most and that as their last call, and give
the very failure of a call that fails; a row of saves that fails stops at the entity that
failed, after those before it were saved one by one. -/
theorem writes_allOrNothing (db : Database) :
    (∀ e, (db.save e).AllOrNothing) ∧
    (∀ keyspace id, (db.deleteById keyspace id).AllOrNothing) ∧
    (∀ keyspace, (db.deleteAll keyspace).AllOrNothing) ∧
    (∀ l x s s', db.saveMany l s = (.error x, s') ↔ db.StopsAt l x s s') ∧
    ∀ (α : Type) [EntityType α] (l : List α) (x : Error) (s s' : Engine),
      Repository.saveAll db l s = (.error x, s') ↔
        db.StopsAt (l.map EntityType.toEntity) x s s' := by
  refine ⟨db.allOrNothing_save, db.allOrNothing_deleteById, db.allOrNothing_deleteAll,
    fun l x s s' => Database.saveMany_eq_error, fun α _ l x s s' => ?_⟩
  rw [Repository.saveAll_run, ← Database.saveMany_eq_error]
  rcases db.saveMany (l.map EntityType.toEntity) s with ⟨y | ids, s₁⟩ <;>
    (constructor <;> intro h <;> cases h <;> rfl)

end IndexedStore
