import IndexedStore.Proofs.Store.Bounded
import IndexedStore.Proofs.Store.Served
import IndexedStore.Typed.Repository

/-! # The values of a repository

A shelf tracks the values of one type beside the engine: a result takes effect on them and a
failure leaves them. After every edit through the repository the content stands for entities
that are the normalized ones of these values, and the other keyspaces are as before.
-/
namespace IndexedStore

open IndexedStore.Task (FailSafe)

/-- Values turn into entities of their keyspace, and take an id as these do. -/
class LawfulEntityType (α : Type) [EntityType α] : Prop where
  keyspace_toEntity : ∀ a : α, (EntityType.toEntity a).keyspace = EntityType.keyspace α
  toEntity_withId : ∀ (a : α) (id : String),
    EntityType.toEntity (EntityType.withId a id) = (EntityType.toEntity a).withId id
  ordered_toEntity : ∀ a : α, (EntityType.toEntity a).Ordered

theorem KeyspaceModel.normalize_withId (m : KeyspaceModel) (e : Entity) (id : String) :
    m.normalize (e.withId id) = (m.normalize e).map fun n => n.withId id := by
  unfold normalize Entity.withId
  cases m.references.foldlM m.normalizeField e.fields <;> rfl

theorem Schema.normalized_of_model {s : Schema} {e : Entity} {m : KeyspaceModel}
    (hm : s.model e.keyspace = .ok m) : s.normalized e = m.normalize e := by
  rw [normalized, hm]
  rfl

variable {α β : Type} [EntityType α]

namespace Repository

variable {db : Database} {s s' : Engine}

inductive Edit (α : Type) where
  | save (a : α)
  | saveAll (l : List α)
  | deleteById (id : String)
  | deleteAll

def Edit.run (db : Database) (s : Engine) : Edit α → Engine
  | save a => (Repository.save db a s).2
  | saveAll l => (Repository.saveAll db l s).2
  | deleteById id => (Repository.deleteById α db id s).2
  | deleteAll => (Repository.deleteAll α db s).2

theorem save_eq_ok {a a' : α} (h : save db a s = (.ok a', s')) :
    ∃ id, db.save (EntityType.toEntity a) s = (.ok id, s') ∧ a' = EntityType.withId a id := by
  obtain ⟨id, s₁, hs, h⟩ := Task.bind_eq_ok h
  cases h
  exact ⟨id, hs, rfl⟩

theorem failSafe_save (db : Database) (a : α) : FailSafe (save db a) :=
  (db.failSafe_save _).bind_total fun _ _ => ⟨_, _, rfl⟩

theorem findById_fst (db : Database) (id : String) (s : Engine) :
    (findById α db id s).1 = (db.findById (EntityType.keyspace α) id s).1.bind fun o =>
      o.mapM EntityType.ofEntity := by
  unfold findById
  rcases hr : db.findById (EntityType.keyspace α) id s with ⟨x | o, s₁⟩
  · rw [Task.bind_run_error hr]
    rfl
  · rw [Task.bind_run_ok hr]
    cases o with
    | none => rfl
    | some e =>
      show ((some <$> Task.ofExcept (EntityType.ofEntity e) : Task (Option α)) s₁).1 =
        some <$> EntityType.ofEntity e
      cases (EntityType.ofEntity e : Except Error α) <;> rfl

end Repository

open Repository (Edit)

/-- The fields are what is stored of a value under its id. -/
def Schema.Stores (s : Schema) (id : String) (fields : Fields) (a : α) : Prop :=
  (EntityType.toEntity a).id = some id ∧
    ∃ n, s.normalized (EntityType.toEntity a) = .ok n ∧ n.fields = fields

/-- The live entities of the keyspace are those of the values. -/
def Entities.Holds (d : Entities) (s : Schema) (values : Dict α) : Prop :=
  ∀ id, Option.Rel (s.Stores id) (d.get? (EntityType.keyspace α) id) (values.get? id)

/-- Apart from one keyspace the entities are the same. -/
def Entities.SameApart (d d' : Entities) (keyspace : String) : Prop :=
  ∀ k i, k ≠ keyspace → d'.get? k i = d.get? k i

namespace Entities.SameApart

variable {d d' d'' : Entities} {keyspace : String}

theorem refl (d : Entities) (keyspace : String) : d.SameApart d keyspace := fun _ _ _ => rfl

theorem trans (h : d.SameApart d' keyspace) (h' : d'.SameApart d'' keyspace) :
    d.SameApart d'' keyspace := fun k i hk => (h' k i hk).trans (h k i hk)

theorem holds (h : d.SameApart d' keyspace) {s : Schema} {values : Dict α}
    (hd : d.Holds s values) (hk : EntityType.keyspace α ≠ keyspace) : d'.Holds s values := by
  intro id
  rw [h _ id hk]
  exact hd id

end Entities.SameApart

/-- An engine and the values of one type that it should hold, by id. -/
structure Shelf (α : Type) where
  engine : Engine
  values : Dict α

namespace Shelf

def run (x : Shelf α) (task : Task β) (effect : β → Dict α) : Except Error β × Shelf α :=
  match task x.engine with
  | (.ok b, s) => (.ok b, ⟨s, effect b⟩)
  | (.error e, s) => (.error e, ⟨s, x.values⟩)

def save (db : Database) (x : Shelf α) (a : α) : Except Error α × Shelf α :=
  x.run (Repository.save db a) fun a' =>
    x.values.insert ((EntityType.toEntity a').id.getD "") a'

def saveAll (db : Database) (x : Shelf α) : List α → Shelf α
  | [] => x
  | a :: rest =>
    match x.save db a with
    | (.ok _, y) => saveAll db y rest
    | (.error _, y) => y

def apply (db : Database) (x : Shelf α) : Edit α → Shelf α
  | .save a => (x.save db a).2
  | .saveAll l => x.saveAll db l
  | .deleteById id => (x.run (Repository.deleteById α db id) fun _ => x.values.erase id).2
  | .deleteAll => (x.run (Repository.deleteAll α db) fun _ => Dict.empty).2

omit [EntityType α] in
theorem engine_run (x : Shelf α) (task : Task β) (effect : β → Dict α) :
    (x.run task effect).2.engine = (task x.engine).2 := by
  unfold run
  rcases task x.engine with ⟨e | b, s⟩ <;> rfl

theorem engine_saveAll (db : Database) (x : Shelf α) (l : List α) :
    (x.saveAll db l).engine = (Repository.saveAll db l x.engine).2 := by
  induction l generalizing x with
  | nil => rfl
  | cons a rest ih =>
    rw [saveAll, Repository.saveAll, save, run]
    rcases hr : Repository.save db a x.engine with ⟨e | a', s⟩
    · rw [Task.bind_run_error hr]
    · rw [Task.bind_run_ok hr]
      refine (ih _).trans ?_
      dsimp only
      rcases hrest : Repository.saveAll db rest s with ⟨e | l', s'⟩
      · rw [Task.bind_run_error hrest]
      · rw [Task.bind_run_ok hrest]
        rfl

theorem engine_apply (db : Database) (x : Shelf α) (edit : Edit α) :
    (x.apply db edit).engine = edit.run db x.engine := by
  cases edit with
  | save a => exact engine_run x _ _
  | saveAll l => exact engine_saveAll db x l
  | deleteById id => exact engine_run x _ _
  | deleteAll => exact engine_run x _ _

/-- The content stands for entities, and those of the keyspace are the values. -/
structure Stands (x : Shelf α) (s : Schema) (d : Entities) : Prop where
  consistent : Consistent x.engine.content d
  bounded : x.engine.content.Bounded
  values : d.Holds s x.values

namespace Stands

variable {x : Shelf α} {d : Entities} {db : Database}

theorem moved {s : Schema} (h : x.Stands s d) {s' : Engine}
    (hs : s'.content = x.engine.content) : (Shelf.mk s' x.values).Stands s d where
  consistent := hs ▸ h.consistent
  bounded := hs ▸ h.bounded
  values := h.values

/-- Some entities stand for what an edit made of the shelf, and only those of the keyspace are
other ones. -/
theorem run (h : x.Stands db.schema d) {task : Task β} {effect : β → Dict α} (hf : FailSafe task)
    (hok : ∀ b s, task x.engine = (.ok b, s) → ∃ d', (Shelf.mk s (effect b)).Stands db.schema d' ∧
      d.SameApart d' (EntityType.keyspace α)) :
    ∃ d', (x.run task effect).2.Stands db.schema d' ∧ d.SameApart d' (EntityType.keyspace α) := by
  unfold Shelf.run
  rcases hr : task x.engine with ⟨e | b, s⟩
  · exact ⟨d, h.moved (hf _ _ _ hr), .refl d _⟩
  · exact hok b s hr

variable [LawfulEntityType α]

theorem stores_withId {s : Schema} {a : α} {n : Entity} {id : String}
    (hn : s.normalized (EntityType.toEntity a) = .ok n) :
    s.Stores id n.fields (EntityType.withId a id) := by
  obtain ⟨m, hm, hnorm⟩ := Task.except_bind_eq_ok hn
  refine ⟨by rw [LawfulEntityType.toEntity_withId]; rfl, n.withId id, ?_, rfl⟩
  have hm' : s.model ((EntityType.toEntity a).withId id).keyspace = .ok m := hm
  rw [LawfulEntityType.toEntity_withId, Schema.normalized_of_model hm',
    KeyspaceModel.normalize_withId, hnorm]
  rfl

theorem save (h : x.Stands db.schema d) (a : α) :
    ∃ d', (x.save db a).2.Stands db.schema d' ∧ d.SameApart d' (EntityType.keyspace α) := by
  refine h.run (Repository.failSafe_save db a) fun a' s hr => ?_
  obtain ⟨id, hs, rfl⟩ := Repository.save_eq_ok hr
  obtain ⟨m, n, owned, hm, hsaved⟩ := Database.save_eq_ok hs
  have hn : db.schema.normalized (EntityType.toEntity a) = .ok n := by
    rw [Schema.normalized_of_model hm, hsaved.normalized]
  have hstores : db.schema.Stores id n.fields (EntityType.withId a id) := stores_withId hn
  rw [LawfulEntityType.keyspace_toEntity] at hm
  have hname := Schema.name_of_model hm
  have hordered := (KeyspaceModel.normalize_eq_ok hsaved.normalized).2.2
    (LawfulEntityType.ordered_toEntity a)
  refine ⟨d.put m.name id n.fields, ⟨?_, hsaved.bounded h.bounded, fun i => ?_⟩, fun k i hk => ?_⟩
  · exact hsaved.consistent h.consistent (Schema.isName_of_model hm) hordered
  · dsimp only
    rw [hstores.1, Option.getD_some, Entities.get?_put, Dict.get?_insert, ← hname]
    by_cases hi : i = id
    · subst hi
      rw [if_pos ⟨rfl, rfl⟩, if_pos rfl]
      exact .some hstores
    · rw [if_neg fun he => hi he.2, if_neg (Ne.symm hi), hname]
      exact h.values i
  · rw [Entities.get?_put, if_neg fun he => hk (he.1.trans hname)]

theorem saveAll (h : x.Stands db.schema d) (l : List α) :
    ∃ d', (x.saveAll db l).Stands db.schema d' ∧ d.SameApart d' (EntityType.keyspace α) := by
  induction l generalizing x d with
  | nil => exact ⟨d, h, .refl d _⟩
  | cons a rest ih =>
    obtain ⟨d₁, h₁, hsame₁⟩ := h.save a
    rw [Shelf.saveAll]
    rcases hr : x.save db a with ⟨e | a', y⟩ <;> rw [hr] at h₁
    · exact ⟨d₁, h₁, hsame₁⟩
    · obtain ⟨d₂, h₂, hsame₂⟩ := ih h₁
      exact ⟨d₂, h₂, hsame₁.trans hsame₂⟩

omit [LawfulEntityType α] in
theorem deleteById (h : x.Stands db.schema d) (id : String) :
    ∃ d', (x.apply db (.deleteById id)).Stands db.schema d' ∧
      d.SameApart d' (EntityType.keyspace α) := by
  refine h.run (db.failSafe_deleteById _ id) fun removed s hr => ?_
  obtain ⟨m, old, owned, hm, -, hdeleted⟩ := Database.deleteById_eq_ok hr
  have hname := Schema.name_of_model hm
  refine ⟨d.erase m.name id, ⟨?_, hdeleted.bounded h.bounded, fun i => ?_⟩, fun k i hk => ?_⟩
  · exact hdeleted.consistent h.consistent (Schema.isName_of_model hm)
  · rw [Entities.get?_erase, Dict.get?_erase, ← hname]
    by_cases hi : i = id
    · rw [if_pos ⟨rfl, hi⟩, if_pos hi.symm]
      exact .none
    · rw [if_neg fun he => hi he.2, if_neg (Ne.symm hi), hname]
      exact h.values i
  · rw [Entities.get?_erase, if_neg fun he => hk (he.1.trans hname)]

omit [LawfulEntityType α] in
theorem deleteAll (h : x.Stands db.schema d) :
    ∃ d', (x.apply db .deleteAll).Stands db.schema d' ∧
      d.SameApart d' (EntityType.keyspace α) := by
  refine h.run (db.failSafe_deleteAll _) fun n s hr => ?_
  obtain ⟨m, hm, -, hcontent⟩ := Database.deleteAll_eq_ok hr
  have hname := Schema.name_of_model hm
  rw [← hname] at hm
  refine ⟨d.clear m.name, ⟨?_, ?_, fun i => ?_⟩, fun k i hk => ?_⟩
  · exact (kept_consistent db.schema).clear h.consistent hm hcontent
  · exact (kept_bounded db.schema).clear (d := d) h.bounded hm hcontent
  · rw [Entities.get?_clear, if_pos hname.symm]
    exact .none
  · rw [Entities.get?_clear, if_neg fun he => hk (he.trans hname)]

theorem apply (h : x.Stands db.schema d) (edit : Edit α) :
    ∃ d', (x.apply db edit).Stands db.schema d' ∧ d.SameApart d' (EntityType.keyspace α) := by
  cases edit with
  | save a => exact h.save a
  | saveAll l => exact h.saveAll l
  | deleteById id => exact h.deleteById id
  | deleteAll => exact h.deleteAll

end Stands

end Shelf

end IndexedStore
