import IndexedStore.Index.Plan
import IndexedStore.Operation.Database

/-! # Deleting

Deleting an entity removes its record, its membership marker and every index entry
it owns as one batch; deleting an absent one succeeds. A keyspace is emptied by
removing every key that starts with its name.
-/

namespace IndexedStore.Database

def deleteUnder (db : Database) (m : KeyspaceModel) (id : String) : Task Bool := do
  let old ← Task.load m.name id
  let owned ← BackRefs.owned Batch.empty m id old
  if old.isNone && owned.isEmpty then
    db.note (.deletedAbsent m.name id)
    return false
  let plan := IndexPlan.forDelete owned
  let b ← plan.stage Batch.empty m.name id
  discard ((b.delete (Key.record m.name id)).delete (Key.member m.name id)).commit
  db.note (.deleted m.name id plan.removes)
  return old.isSome

/-- Removes one entity; the answer is whether there was a record. -/
def deleteById (db : Database) (keyspace id : String) : Task Bool := do
  let m ← db.model keyspace
  Task.spanned .delete m.name (fun removed => if removed then 1 else 0) (db.deleteUnder m id)

def flush (db : Database) (m : KeyspaceModel) : Task Nat := do
  let members ← Task.members m.name
  let found ← Task.scan (Key.keyspacePrefix m.name)
  let writes ← (Batch.empty.deleteAll (found.map Prod.fst)).commit
  db.note (.flushed m.name members.size writes)
  return members.size

/-- Removes every entity of a keyspace; the answer is how many there were. -/
def deleteAll (db : Database) (keyspace : String) : Task Nat := do
  let m ← db.model keyspace
  Task.spanned .flush m.name id (db.flush m)

end IndexedStore.Database
