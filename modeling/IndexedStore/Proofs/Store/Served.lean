import IndexedStore.Operation.Search
import IndexedStore.Proofs.Operation.Healthy
import IndexedStore.Proofs.Store.Resolved

/-! # What a healthy backing store answers for a live entity

Over a content that stands for entities, a live entity is found when it can be read and
resolved. It is deleted and replaced when it can be read and is not stuck: an entity without a
stored list of entries is stuck under a model that indexes one of its values as a place.
-/
namespace IndexedStore

open IndexedStore.Task (Reading)
open Key (IsName)

/-- There is no stored list of the entity's entries, and a geo-indexed path of its record leads
to a value that is no place. -/
def Stuck (c : Content) (m : KeyspaceModel) (id : String) (fields : Fields) : Prop :=
  c.get? (Key.backRefs m.name id) = none ∧
    ∃ path ∈ m.geoIndexes, ∃ v, fields.valueAt path = some v ∧ v.isPlace = false

theorem not_stuck_iff {c : Content} {m : KeyspaceModel} {id : String} {fields : Fields} :
    ¬Stuck c m id fields ↔ (c.get? (Key.backRefs m.name id) = none →
      ∃ x, IndexEntries.derive m ⟨m.name, some id, fields⟩ id = .ok x) := by
  rw [IndexEntries.exists_derive_iff]
  constructor
  · intro h hn path hp v hv
    cases hplace : v.isPlace with
    | true => rfl
    | false => exact absurd ⟨hn, path, hp, v, hv, hplace⟩ h
  · rintro h ⟨hn, path, hp, v, hv, hplace⟩
    cases hplace.symm.trans (h hn path hp v hv)

namespace Database

theorem reading_findUnder (m : KeyspaceModel) (o : Option Entity) :
    Reading (match o with
      | some e => some <$> Task.resolve m e
      | none => pure none) := by
  cases o with
  | none => exact Reading.pure _
  | some e => exact (Task.reading_resolve m m.references e).bind fun _ => Reading.pure _

theorem reading_findById (db : Database) (keyspace id : String) :
    Reading (db.findById keyspace id) :=
  (Reading.ofExcept _).bind fun m =>
    ((Task.reading_load m.name id).bind (reading_findUnder m)).spanned

theorem findById_fst {db : Database} {keyspace id : String} {m : KeyspaceModel}
    {s : Engine} (hs : s.faults = Faults.none) (hm : db.schema.model keyspace = .ok m) :
    (db.findById keyspace id s).1 =
      ((Task.load m.name id).on s.content).bind fun o => match o with
        | some e => ((Task.resolve m e).on s.content).map some
        | none => .ok none := by
  have hread := reading_findUnder m
  have hload := Task.reading_load m.name id
  unfold findById
  rw [Task.bind_run_ok (model_run hm s), Task.spanned_fst]
  have hrun := (hload.bind hread).healthy (s.log (.event (.started .load m.name))) hs
  refine hrun.trans ((Task.on_bind hload hread s.content).trans ?_)
  cases (Task.load m.name id).on s.content with
  | error x => rfl
  | ok o =>
    cases o with
    | none => rfl
    | some e =>
      have hmap := Task.on_bind (Task.reading_resolve m m.references e)
        (fun e => Reading.pure (some e)) s.content
      refine hmap.trans ?_
      show ((Task.resolve m e).on s.content).bind _ = ((Task.resolve m e).on s.content).map some
      cases (Task.resolve m e).on s.content <;> rfl

end Database

namespace Consistent

variable {d : Entities} {db : Database} {m : KeyspaceModel} {id : String} {s : Engine}
  {fields : Fields}

theorem load_of_live (h : Consistent s.content d) (hb : s.content.Bounded) (hk : IsName m.name)
    (hd : d.get? m.name id = some fields) :
    (Task.load m.name id).on s.content =
      if fields.Readable then .ok (some ⟨m.name, some id, fields⟩)
      else .error (.corruption (Key.record m.name id) (.undecodable .malformed)) := by
  rw [h.on_load hb hk, Entities.load, hd]

theorem findById_eq_ok (h : Consistent s.content d) (hb : s.content.Bounded)
    (hs : s.faults = Faults.none) (hm : db.schema.model m.name = .ok m)
    (hd : d.get? m.name id = some fields) {o : Option Entity} :
    (db.findById m.name id s).1 = .ok o ↔
      o = some (d.resolved m.references ⟨m.name, some id, fields⟩) ∧ fields.Readable ∧
        d.Resolvable m.references fields := by
  have hk := Schema.isName_of_model hm
  obtain ⟨refs, hlive⟩ := h.live m.name id fields hd
  have hresolve := fun x => h.on_resolve hb (m := m) (x := x) (e := ⟨m.name, some id, fields⟩)
    (fun r hr => Schema.isName_target hm hr) hlive.ordered.1
  rw [Database.findById_fst hs hm, h.load_of_live hb hk hd]
  by_cases hr : fields.Readable
  · rw [if_pos hr]
    constructor
    · intro ho
      cases hx : (Task.resolve m ⟨m.name, some id, fields⟩).on s.content with
      | error y =>
        simp only [Except.bind, hx] at ho
        cases ho
      | ok x =>
        obtain ⟨rfl, hres⟩ := (hresolve x).mp hx
        simp only [Except.bind, hx] at ho
        exact ⟨(Except.ok.inj ho).symm, hr, hres⟩
    · rintro ⟨rfl, -, hres⟩
      have hx : (Task.resolve m ⟨m.name, some id, fields⟩).on s.content = .ok _ :=
        (hresolve _).mpr ⟨rfl, hres⟩
      simp only [Except.bind, hx]
      rfl
  · rw [if_neg hr]
    constructor
    · intro ho
      cases ho
    · rintro ⟨-, hr', -⟩
      exact absurd hr' hr

/-- What a write needs to know of a live entity can be told when it can be read and is not
stuck. -/
theorem exists_old_iff (h : Consistent s.content d) (hb : s.content.Bounded) (hk : IsName m.name)
    (hd : d.get? m.name id = some fields) :
    (∃ old owned, (Task.load m.name id).on s.content = .ok old ∧
      (BackRefs.owned Batch.empty m id old).on s.content = .ok owned) ↔
    fields.Readable ∧ ¬Stuck s.content m id fields := by
  rw [h.load_of_live hb hk hd, not_stuck_iff, ← h.exists_owned_iff hb hd]
  by_cases hr : fields.Readable
  · rw [if_pos hr]
    constructor
    · rintro ⟨old, owned, ho, howned⟩
      cases ho
      exact ⟨hr, owned, howned⟩
    · rintro ⟨-, owned, howned⟩
      exact ⟨_, owned, rfl, howned⟩
  · rw [if_neg hr]
    constructor
    · rintro ⟨old, owned, ho, -⟩
      cases ho
    · exact fun hrs => absurd hrs.1 hr

theorem deleteById_eq_ok (h : Consistent s.content d) (hb : s.content.Bounded)
    (hs : s.faults = Faults.none) (hm : db.schema.model m.name = .ok m)
    (hd : d.get? m.name id = some fields) {removed : Bool} :
    (db.deleteById m.name id s).1 = .ok removed ↔
      removed = true ∧ fields.Readable ∧ ¬Stuck s.content m id fields := by
  have hk := Schema.isName_of_model hm
  rw [Database.deleteById_fst_eq_ok hs hm, ← h.exists_old_iff hb hk hd]
  constructor
  · rintro ⟨old, owned, hl, ho, rfl⟩
    refine ⟨?_, old, owned, hl, ho⟩
    rw [h.load_eq hk hl, hd]
    rfl
  · rintro ⟨rfl, old, owned, hl, ho⟩
    refine ⟨old, owned, hl, ho, ?_⟩
    rw [h.load_eq hk hl, hd]
    rfl

theorem save_eq_ok (h : Consistent s.content d) (hb : s.content.Bounded)
    (hs : s.faults = Faults.none) {e : Entity} (hm : db.schema.model e.keyspace = .ok m)
    (hid : e.id = some id) (hd : d.get? m.name id = some fields) :
    (db.save e s).1 = .ok id ↔
      (∃ n, Acceptable m e id n) ∧ fields.Readable ∧ ¬Stuck s.content m id fields := by
  rw [Database.save_fst_eq_ok hs hm hid, ← h.exists_old_iff hb (Schema.isName_of_model hm) hd]

end Consistent

end IndexedStore
