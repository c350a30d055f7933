import IndexedStore.Proofs.Entity.References
import IndexedStore.Proofs.Schema.Names
import IndexedStore.Proofs.Store.Removed
import IndexedStore.Proofs.Store.Saved

/-! # Histories

A history is a list of operations, each under a schema of its own, on one backing store whose
calls may fail at any time. Beside the engine it tracks the entities: a result takes effect on
them and a failure leaves them. The content is consistent with the entities after every
history (`consistent_replay`).
-/
namespace IndexedStore

open KeyspaceModel (Stores)

/-- An entity as it is handed in: its field names are in order. -/
abbrev OrderedEntity := {e : Entity // e.Ordered}

inductive Op where
  | save (e : OrderedEntity)
  | saveMany (l : List OrderedEntity)
  | deleteById (keyspace id : String)
  | deleteAll (keyspace : String)

def Database.indexing (paths : List String)
    (h : KeyspaceModel.checkAll (Dict.empty.insert "k" ⟨"k", paths, [], []⟩) = .ok ()) :
    Database :=
  .quiet (.single ⟨"k", paths, [], []⟩ h)

def OrderedEntity.sample : OrderedEntity :=
  ⟨⟨"k", some "1", [("f", .text "x")]⟩, List.pairwise_singleton _ _, trivial, trivial⟩

/-- The entity that a save stores. -/
def Schema.normalized (s : Schema) (e : Entity) : Except Error Entity := do
  let m ← s.model e.keyspace
  m.normalize e

/-- The effect of a save that gave `id`. -/
def Entities.saved (d : Entities) (s : Schema) (e : Entity) (id : String) : Entities :=
  match s.normalized e with
  | .ok n => d.put e.keyspace id n.fields
  | .error _ => d

/-- An engine and the entities that it should hold. -/
structure Tracked where
  engine : Engine
  entities : Entities

namespace Tracked

variable {α : Type}

def fresh (faults : Faults) (supply : IdSupply) (journal : Journal) : Tracked :=
  ⟨⟨Dict.empty, faults, supply, journal⟩, Entities.empty⟩

/-- A result takes effect on the entities, a failure leaves them as they were. -/
def run (t : Tracked) (task : Task α) (effect : α → Entities → Entities) :
    Except Error α × Tracked :=
  match task t.engine with
  | (.ok a, s) => (.ok a, ⟨s, effect a t.entities⟩)
  | (.error e, s) => (.error e, ⟨s, t.entities⟩)

def save (db : Database) (t : Tracked) (e : OrderedEntity) : Except Error String × Tracked :=
  t.run (db.save e.val) fun id d => d.saved db.schema e.val id

/-- One save after another up to the first failure, each with its own effect. -/
def saveMany (db : Database) (t : Tracked) :
    List OrderedEntity → Except Error (List String) × Tracked
  | [] => (.ok [], t)
  | e :: rest =>
    match t.save db e with
    | (.ok id, t') =>
      match saveMany db t' rest with
      | (.ok ids, t'') => (.ok (id :: ids), t'')
      | (.error x, t'') => (.error x, t'')
    | (.error x, t') => (.error x, t')

def apply (db : Database) (t : Tracked) : Op → Tracked
  | .save e => (t.save db e).2
  | .saveMany l => (t.saveMany db l).2
  | .deleteById keyspace id =>
    (t.run (db.deleteById keyspace id) fun _ d => d.erase keyspace id).2
  | .deleteAll keyspace => (t.run (db.deleteAll keyspace) fun _ d => d.clear keyspace).2

/-- Operations one after another, each on a handle of its own. -/
def replay (t : Tracked) (history : List (Database × Op)) : Tracked :=
  history.foldl (fun t p => t.apply p.1 p.2) t

/-- What is tracked beside the saves is the run of `Database.saveMany`. -/
theorem saveMany_run (db : Database) (t : Tracked) (l : List OrderedEntity) :
    db.saveMany (l.map Subtype.val) t.engine =
      ((t.saveMany db l).1, (t.saveMany db l).2.engine) := by
  induction l generalizing t with
  | nil => rfl
  | cons e rest ih =>
    rw [List.map_cons, Database.saveMany, saveMany, save, run]
    rcases hs : db.save e.val t.engine with ⟨x | id, s⟩
    · rw [Task.bind_run_error hs]
    · rw [Task.bind_run_ok hs]
      have hrest := ih ⟨s, t.entities.saved db.schema e.val id⟩
      dsimp only at hrest ⊢
      rcases hm : saveMany db ⟨s, t.entities.saved db.schema e.val id⟩ rest with ⟨x | ids, t'⟩
      · rw [hm] at hrest
        rw [Task.bind_run_error hrest]
      · rw [hm] at hrest
        rw [Task.bind_run_ok hrest]
        rfl

/-- A save puts among the entities what the declarations make of the given fields. -/
theorem save_stores {db : Database} {t : Tracked} {e : OrderedEntity} {id : String} {s : Engine}
    (h : db.save e.val t.engine = (.ok id, s)) :
    ∃ m fields, db.schema.model e.val.keyspace = .ok m ∧ Assoc.Sorted fields ∧
      (∀ name, Stores m.references name (Assoc.lookup name e.val.fields)
        (Assoc.lookup name fields)) ∧
      (t.save db e).2 = ⟨s, t.entities.put e.val.keyspace id fields⟩ := by
  obtain ⟨m, n, owned, hm, hsaved⟩ := Database.save_eq_ok h
  obtain ⟨-, -, hsorted, hstores⟩ :=
    (KeyspaceModel.normalize_eq_ok_iff e.property).mp hsaved.normalized
  have hnorm : db.schema.normalized e.val = .ok n := by
    rw [Schema.normalized, hm]
    exact hsaved.normalized
  have hput : t.entities.saved db.schema e.val id = t.entities.put e.val.keyspace id n.fields := by
    rw [Entities.saved, hnorm]
  refine ⟨m, n.fields, hm, hsorted, hstores, ?_⟩
  rw [save, run, h, ← hput]

/-- A property of the content and the entities. -/
def Sat (t : Tracked) (inv : Content → Entities → Prop) : Prop :=
  inv t.engine.content t.entities

end Tracked

/-- Successful operations under a schema keep a property of the content and the entities. -/
structure Kept (s : Schema) (inv : Content → Entities → Prop) : Prop where
  save : ∀ {c c' d m e n id owned}, inv c d → s.model m.name = .ok m → n.fields.Ordered →
    Saved m e id c c' n owned → inv c' (d.put m.name id n.fields)
  delete : ∀ {c c' d m id old owned}, inv c d → s.model m.name = .ok m →
    Deleted m id c c' old owned → inv c' (d.erase m.name id)
  clear : ∀ {c c' d m}, inv c d → s.model m.name = .ok m →
    (∀ k, c'.get? k =
      if Key.hasPrefix (Key.keyspacePrefix m.name) k then none else c.get? k) →
    inv c' (d.clear m.name)

theorem kept_each {s : Schema} {P : String → String → Fields → Prop}
    (h : ∀ {m : KeyspaceModel} {e n : Entity} {id : String} {c c' : Content} {owned : BackRefs},
      s.model m.name = .ok m → n.fields.Ordered → Saved m e id c c' n owned →
        P m.name id n.fields) :
    Kept s fun _ d => ∀ k i fields, d.get? k i = some fields → P k i fields where
  save hd hm hf hs k i fields hget := by
    rw [Entities.get?_put] at hget
    split at hget
    · rename_i hsame
      obtain ⟨rfl, rfl⟩ := hsame
      cases hget
      exact h hm hf hs
    · exact hd k i fields hget
  delete hd _ _ k i fields hget := by
    rw [Entities.get?_erase] at hget
    split at hget
    · cases hget
    · exact hd k i fields hget
  clear hd _ _ k i fields hget := by
    rw [Entities.get?_clear] at hget
    split at hget
    · cases hget
    · exact hd k i fields hget

theorem kept_consistent (s : Schema) : Kept s Consistent where
  save h hm hf hs := hs.consistent h (Schema.isName_of_model hm) hf
  delete h hm hd := hd.consistent h (Schema.isName_of_model hm)
  clear h hm hc := h.clear (Schema.isName_of_model hm) hc

namespace Tracked

variable {α : Type} {inv : Content → Entities → Prop} {t : Tracked}

/-- A property is kept when results keep it and failures change nothing. -/
theorem Sat.run (h : t.Sat inv) {task : Task α} {effect : α → Entities → Entities}
    (hf : task.FailSafe) (hok : ∀ a s, task t.engine = (.ok a, s) →
      inv s.content (effect a t.entities)) : (t.run task effect).2.Sat inv := by
  unfold Tracked.run
  rcases hr : task t.engine with ⟨e | a, s⟩
  · show inv s.content t.entities
    rw [hf t.engine e s hr]
    exact h
  · exact hok a s hr

theorem Sat.save {db : Database} (h : t.Sat inv) (hk : Kept db.schema inv) (e : OrderedEntity) :
    (t.save db e).2.Sat inv := by
  apply h.run (db.failSafe_save e.val)
  intro id s hs
  obtain ⟨m, n, owned, hm, hsaved⟩ := Database.save_eq_ok hs
  have hname := Schema.name_of_model hm
  have hnorm : db.schema.normalized e.val = .ok n := by
    rw [Schema.normalized, hm]
    exact hsaved.normalized
  have hordered := (KeyspaceModel.normalize_eq_ok hsaved.normalized).2.2 e.property
  rw [← hname] at hm
  rw [Entities.saved, hnorm, ← hname]
  exact hk.save h hm hordered hsaved

theorem Sat.saveMany {db : Database} (h : t.Sat inv) (hk : Kept db.schema inv)
    (l : List OrderedEntity) : (t.saveMany db l).2.Sat inv := by
  induction l generalizing t with
  | nil => exact h
  | cons e rest ih =>
    have hs := h.save hk e
    rw [Tracked.saveMany]
    rcases hr : t.save db e with ⟨x | id, t'⟩
    · rw [hr] at hs
      exact hs
    · rw [hr] at hs
      have hrest := ih hs
      dsimp only at hrest ⊢
      rcases hm : Tracked.saveMany db t' rest with ⟨x | ids, t''⟩ <;> rw [hm] at hrest <;>
        exact hrest

theorem Sat.apply {db : Database} (h : t.Sat inv) (hk : Kept db.schema inv) (op : Op) :
    (t.apply db op).Sat inv := by
  cases op with
  | save e => exact h.save hk e
  | saveMany l => exact h.saveMany hk l
  | deleteById keyspace id =>
    apply h.run (db.failSafe_deleteById keyspace id)
    intro removed s hs
    obtain ⟨m, old, owned, hm, -, hdeleted⟩ := Database.deleteById_eq_ok hs
    obtain rfl := Schema.name_of_model hm
    exact hk.delete h hm hdeleted
  | deleteAll keyspace =>
    apply h.run (db.failSafe_deleteAll keyspace)
    intro n s hs
    obtain ⟨m, hm, -, hcontent⟩ := Database.deleteAll_eq_ok hs
    obtain rfl := Schema.name_of_model hm
    exact hk.clear h hm hcontent

theorem Sat.replay (h : t.Sat inv) {history : List (Database × Op)}
    (hk : ∀ p ∈ history, Kept p.1.schema inv) : (t.replay history).Sat inv := by
  induction history generalizing t with
  | nil => exact h
  | cons p history ih =>
    obtain ⟨hp, hk⟩ := List.forall_mem_cons.mp hk
    exact ih (h.apply hp p.2) hk

theorem consistent_replay (faults : Faults) (supply : IdSupply) (journal : Journal)
    (history : List (Database × Op)) :
    ((fresh faults supply journal).replay history).Sat Consistent := by
  have h : (fresh faults supply journal).Sat Consistent := consistent_empty
  exact h.replay fun p _ => kept_consistent p.1.schema

end Tracked

end IndexedStore
