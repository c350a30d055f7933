import IndexedStore.Operation.Save
import IndexedStore.Proofs.Entity.Normalize
import IndexedStore.Proofs.Index.Stage

/-! # What a save writes

A save that fails leaves the content as it was. One that succeeds gives each key what its
plan says and leaves the others (`save_eq_ok`).
-/
namespace IndexedStore

open IndexedStore.Task (Reading FailSafe Keeps Total)

/-- What a save stages for a key. -/
def IndexPlan.saved (p : IndexPlan) (keyspace id : String) (fields : Fields) (k : String) :
    Option (Option Bytes) :=
  if Key.member keyspace id = k then some (some [])
  else if Key.record keyspace id = k then some (some (payload (StoredRecord.mk fields)))
  else p.planned keyspace id k

/-- What a save asks of the entity `e` under `id`, apart from what is stored already: its index
entries can be derived, and neither their list nor the record is too long. -/
structure Writable (m : KeyspaceModel) (e : Entity) (id : String) : Prop where
  derives : ∃ x, IndexEntries.derive m e id = .ok x
  refs : (m.refs e.fields id).isEmpty = false →
    (payload (m.refs e.fields id)).length ≤ maxPayload
  record : (payload (StoredRecord.mk e.fields)).length ≤ maxPayload

theorem Writable.congr {m : KeyspaceModel} {e e' : Entity} {id : String} (h : Writable m e id)
    (he : e'.fields = e.fields) : Writable m e' id := by
  refine ⟨?_, he ▸ h.refs, he ▸ h.record⟩
  rw [IndexEntries.exists_derive_iff, he]
  exact IndexEntries.exists_derive_iff.mp h.derives

/-- What a save checks of an entity, whatever is stored: `n` is its normalized form. -/
structure Acceptable (m : KeyspaceModel) (e : Entity) (id : String) (n : Entity) : Prop where
  normalized : m.normalize e = .ok n
  valid : n.invalidPoint? = none
  id_ne : id ≠ ""
  writable : Writable m (n.withId id) id

/-- A successful save takes the content `c` to `c'`: the normalized entity `n` is written under
`id`, and the entries `owned` were taken for the ones the entity has already. -/
structure Saved (m : KeyspaceModel) (e : Entity) (id : String) (c c' : Content) (n : Entity)
    (owned : BackRefs) : Prop extends Acceptable m e id n where
  id_eq : ∀ i, e.id = some i → i = id
  owns : ∃ old, (Task.load m.name id).on c = .ok old ∧
    (BackRefs.owned Batch.empty m id old).on c = .ok owned
  writes : ∃ x, IndexEntries.derive m (n.withId id) id = .ok x ∧
    ∀ k, c'.get? k =
      ((IndexPlan.ofEntries owned x).saved m.name id n.fields k).getD (c.get? k)

namespace Task

theorem newId_state (s : Engine) : (newId s).2 = s := by
  unfold newId
  cases s.ids s.journal <;> rfl

theorem newId_ne_empty {s s' : Engine} {id : String} (h : newId s = (.ok id, s')) : id ≠ "" := by
  unfold newId at h
  cases hid : s.ids s.journal with
  | error x =>
    rw [hid] at h
    cases h
  | ok x =>
    rw [hid] at h
    cases h
    exact x.property

end Task

namespace Database

theorem chooseId_none {m : KeyspaceModel} {e : Entity} (h : e.id = none) (s : Engine) :
    chooseId m e s = Task.newId s := by
  unfold chooseId
  rw [h]

theorem chooseId_empty {m : KeyspaceModel} {e : Entity} (h : e.id = some "") (s : Engine) :
    chooseId m e s = (.error (.conversion m.name .emptyId), s) := by
  unfold chooseId
  rw [h]
  rfl

theorem chooseId_some {m : KeyspaceModel} {e : Entity} {i : String} (h : e.id = some i)
    (hi : i ≠ "") (s : Engine) : chooseId m e s = (.ok i, s) := by
  have hc : chooseId m e = pure i := by
    unfold chooseId
    rw [h]
    split
    · rename_i he
      exact absurd (Option.some.inj he) hi
    · rename_i he
      cases he
      rfl
    · rename_i he
      cases he
  rw [hc]
  rfl

theorem chooseId_state (m : KeyspaceModel) (e : Entity) (s : Engine) :
    (chooseId m e s).2 = s := by
  cases h : e.id with
  | none => rw [chooseId_none h, Task.newId_state]
  | some i =>
    by_cases hi : i = ""
    · rw [chooseId_empty (h.trans (congrArg some hi))]
    · rw [chooseId_some h hi]

/-- An id is never empty, and it is the entity's own if there is one. -/
theorem chooseId_eq_ok {m : KeyspaceModel} {e : Entity} {id : String} {s s' : Engine}
    (h : chooseId m e s = (.ok id, s')) : s = s' ∧ id ≠ "" ∧ ∀ i, e.id = some i → i = id := by
  have hs := chooseId_state m e s
  rw [h] at hs
  refine ⟨hs.symm, ?_⟩
  cases he : e.id with
  | none =>
    rw [chooseId_none he] at h
    exact ⟨Task.newId_ne_empty h, nofun⟩
  | some i =>
    by_cases hi : i = ""
    · rw [chooseId_empty (he.trans (congrArg some hi))] at h
      cases h
    · rw [chooseId_some he hi] at h
      cases h
      exact ⟨hi, fun j hj => Option.some.inj hj.symm⟩

theorem reading_stageSave (m : KeyspaceModel) (owned : BackRefs) (e : Entity) (id : String) :
    Reading (stageSave m owned e id) :=
  (Reading.ofExcept _).bind fun p => (p.reading_stage _ _ _).bind fun b =>
    (b.reading_store _ _).bind fun _ => Reading.pure _

theorem stageSave_eq_ok {m : KeyspaceModel} {owned : BackRefs} {e : Entity} {id : String}
    {p : IndexPlan} {b : Batch} {s s' : Engine}
    (h : stageSave m owned e id s = (.ok (p, b), s')) :
    ∃ x, IndexEntries.derive m e id = .ok x ∧
      ∀ k, b.staged k = (IndexPlan.ofEntries owned x).saved m.name id e.fields k := by
  obtain ⟨plan, s₁, hp, h⟩ := Task.bind_eq_ok h
  obtain ⟨b₁, s₂, hb, h⟩ := Task.bind_eq_ok h
  obtain ⟨b₂, s₃, hb₂, h⟩ := Task.bind_eq_ok h
  cases h
  cases hd : IndexEntries.derive m e id with
  | error y =>
    rw [IndexPlan.forSave, hd] at hp
    cases hp
  | ok x =>
    rw [IndexPlan.forSave, hd] at hp
    cases hp
    obtain ⟨rfl, -⟩ := Batch.store_eq_ok hb₂
    refine ⟨x, rfl, fun k => ?_⟩
    rw [Batch.staged_put, Batch.staged_put, IndexPlan.stage_eq_ok x.geo.sorted hb, Batch.staged_empty, Option.or_none]
    rfl

theorem writable_of_stageSave {m : KeyspaceModel} {owned : BackRefs} {e : Entity} {id : String}
    {p : IndexPlan × Batch} {s s' : Engine} (h : stageSave m owned e id s = (.ok p, s')) :
    Writable m e id := by
  obtain ⟨plan, s₁, hp, h⟩ := Task.bind_eq_ok h
  obtain ⟨b₁, s₂, hb, h⟩ := Task.bind_eq_ok h
  obtain ⟨b₂, s₃, hb₂, -⟩ := Task.bind_eq_ok h
  cases hd : IndexEntries.derive m e id with
  | error y =>
    rw [IndexPlan.forSave, hd] at hp
    cases hp
  | ok x =>
    rw [IndexPlan.forSave, hd] at hp
    cases hp
    refine ⟨⟨x, hd⟩, ?_, (Batch.store_eq_ok hb₂).2⟩
    rw [← IndexEntries.refs_eq hd]
    exact IndexPlan.refs_length_of_stage hb

/-- What an entity owns already does not decide whether it can be written. -/
theorem exists_stageSave {m : KeyspaceModel} {e : Entity} {id : String} (h : Writable m e id)
    (owned : BackRefs) (s : Engine) : ∃ p s', stageSave m owned e id s = (.ok p, s') := by
  obtain ⟨x, hx⟩ := h.derives
  have hplan : Task.ofExcept (IndexPlan.forSave m owned e id) s =
      (.ok (IndexPlan.ofEntries owned x), s) := by
    rw [IndexPlan.forSave, hx]
    rfl
  have hrefs := h.refs
  rw [← IndexEntries.refs_eq hx] at hrefs
  obtain ⟨b, s₁, hb⟩ := IndexPlan.exists_stage (p := IndexPlan.ofEntries owned x) hrefs
    Batch.empty m.name id s
  have hstore := Batch.store_run h.record b (Key.record m.name id) s₁
  unfold stageSave
  rw [Task.bind_run_ok hplan, Task.bind_run_ok hb, Task.bind_run_ok hstore]
  exact ⟨_, _, rfl⟩

theorem saveUnder_eq_ok {db : Database} {m : KeyspaceModel} {e : Entity} {id : String}
    {s s' : Engine} (h : db.saveUnder m e s = (.ok id, s')) :
    ∃ n owned, Saved m e id s.content s'.content n owned := by
  unfold saveUnder at h
  obtain ⟨n, s₁, hn, h⟩ := Task.bind_eq_ok h
  have hnorm : m.normalize e = .ok n := congrArg Prod.fst hn
  obtain rfl : s = s₁ := congrArg Prod.snd hn
  cases hp : n.invalidPoint? with
  | some p =>
    simp only [hp] at h
    obtain ⟨u, s₂, hx, h⟩ := Task.bind_eq_ok h
    cases hx
  | none =>
    simp only [hp] at h
    obtain ⟨i, s₂, hi, h⟩ := Task.bind_eq_ok h
    obtain ⟨rfl, hne, hown⟩ := chooseId_eq_ok hi
    obtain ⟨old, s₃, hl, h⟩ := Task.bind_eq_ok h
    obtain ⟨hs₃, hold⟩ := (Task.reading_load _ _).run_ok hl
    obtain ⟨owned, s₄, ho, h⟩ := Task.bind_eq_ok h
    obtain ⟨hs₄, howned⟩ := (BackRefs.reading_owned _ _ _).run_ok ho
    obtain ⟨⟨p, b⟩, s₅, hb, h⟩ := Task.bind_eq_ok h
    obtain ⟨hs₅, -⟩ := (reading_stageSave _ _ _ _).run_ok hb
    obtain ⟨x, hx, hstaged⟩ := stageSave_eq_ok hb
    obtain ⟨writes, s₆, hc, h⟩ := Task.bind_eq_ok h
    obtain ⟨hcontent, -⟩ := Task.commit_run_ok hc
    cases h
    have hsame := (hs₃.trans hs₄).trans hs₅
    rw [hs₃.content] at howned
    refine ⟨n, owned, ⟨hnorm, hp, hne, writable_of_stageSave hb⟩, ?_, ⟨old, hold, howned⟩, x, hx,
      fun k => ?_⟩
    · rw [← (KeyspaceModel.normalize_eq_ok hnorm).2.1]
      exact hown
    · show s₆.content.get? k = _
      rw [hcontent, hstaged, hsame.content]
      rfl

theorem failSafe_saveUnder (db : Database) (m : KeyspaceModel) (e : Entity) :
    FailSafe (db.saveUnder m e) := by
  unfold saveUnder
  refine (Reading.ofExcept _).keeps.bind_failSafe fun n => ?_
  cases hp : n.invalidPoint? with
  | some p =>
    intro s y s' h
    cases h
    rfl
  | none =>
    simp only
    have hchoose : Keeps (chooseId m n) := fun s => by rw [chooseId_state]
    refine hchoose.bind_failSafe fun id => ?_
    refine (Task.reading_load _ _).keeps.bind_failSafe fun old => ?_
    refine (BackRefs.reading_owned _ _ _).keeps.bind_failSafe fun owned => ?_
    refine (reading_stageSave _ _ _ _).keeps.bind_failSafe fun pb => ?_
    exact (Task.failSafe_commit pb.2).bind_total fun writes s => ⟨id, _, rfl⟩

theorem save_eq_ok {db : Database} {e : Entity} {id : String} {s s' : Engine}
    (h : db.save e s = (.ok id, s')) :
    ∃ m n owned, db.schema.model e.keyspace = .ok m ∧
      Saved m e id s.content s'.content n owned := by
  obtain ⟨m, s₁, hm, h⟩ := Task.bind_eq_ok h
  obtain ⟨s₂, hsave, hsame⟩ := Task.spanned_run h
  obtain ⟨n, owned, hsaved⟩ := saveUnder_eq_ok hsave
  have hs₁ : s = s₁ := congrArg Prod.snd hm
  rw [← hsame.content, ← hs₁] at hsaved
  exact ⟨m, n, owned, congrArg Prod.fst hm, hsaved⟩

theorem failSafe_save (db : Database) (e : Entity) : FailSafe (db.save e) :=
  (Reading.ofExcept _).keeps.bind_failSafe fun m => (db.failSafe_saveUnder m e).spanned

end Database

end IndexedStore
