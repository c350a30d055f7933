import IndexedStore.Index.Plan
import IndexedStore.Operation.Database

/-! # Saving

A save writes the record, its index entries, the list of those entries and the
membership marker of an entity as one batch.
-/

namespace IndexedStore

namespace Database

/-- The id to save under: the entity's own, or a new one. -/
def chooseId (m : KeyspaceModel) (e : Entity) : Task String :=
  match e.id with
  | some "" => throw (.conversion m.name .emptyId)
  | some id => pure id
  | none => Task.newId

/-- Everything that saving `e` under `id` writes, with the plan of its index entries. -/
def stageSave (m : KeyspaceModel) (owned : BackRefs) (e : Entity) (id : String) :
    Task (IndexPlan × Batch) := do
  let plan ← Task.ofExcept (IndexPlan.forSave m owned e id)
  let b ← plan.stage Batch.empty m.name id
  let b ← b.store (Key.record m.name id) (StoredRecord.mk e.fields)
  return (plan, b.put (Key.member m.name id) [])

def saveUnder (db : Database) (m : KeyspaceModel) (e : Entity) : Task String := do
  let e ← Task.ofExcept (m.normalize e)
  if let some p := e.invalidPoint? then throw (.invalidCoordinate p)
  let id ← chooseId m e
  let old ← Task.load m.name id
  let owned ← BackRefs.owned Batch.empty m id old
  let (plan, b) ← stageSave m owned (e.withId id) id
  let writes ← b.commit
  db.note (.saved m.name id old.isNone plan.inserts plan.removes writes)
  return id

/-- Inserts or replaces an entity and gives its id. -/
def save (db : Database) (e : Entity) : Task String := do
  let m ← db.model e.keyspace
  Task.spanned .save m.name (fun _ => 1) (db.saveUnder m e)

/-- Saves one after another up to the first failure; what was saved before stays. -/
def saveMany (db : Database) : List Entity → Task (List String)
  | [] => return []
  | e :: rest => do
    let id ← db.save e
    return id :: (← db.saveMany rest)

end Database

end IndexedStore
