import IndexedStore.Operation.Delete
import IndexedStore.Operation.Save
import IndexedStore.Operation.Search

/-! # Typed access

A repository shows one keyspace as values of a type that turns into entities and
back. Reading sees references already resolved.
-/

namespace IndexedStore

class EntityType (α : Type) where
  keyspace : String
  withId : α → String → α
  toEntity : α → Entity
  ofEntity : Entity → Except Error α

namespace Repository

variable (α : Type) [EntityType α]

variable {α} in
def save (db : Database) (a : α) : Task α := do
  let id ← db.save (EntityType.toEntity a)
  return EntityType.withId a id

variable {α} in
def saveAll (db : Database) : List α → Task (List α)
  | [] => return []
  | a :: rest => do
    let saved ← save db a
    return saved :: (← saveAll db rest)

def deleteById (db : Database) (id : String) : Task Bool :=
  db.deleteById (EntityType.keyspace α) id

def deleteAll (db : Database) : Task Nat := db.deleteAll (EntityType.keyspace α)

def contains (db : Database) (id : String) : Task Bool :=
  db.contains (EntityType.keyspace α) id

def count (db : Database) : Task Nat := db.count (EntityType.keyspace α)

def findById (db : Database) (id : String) : Task (Option α) := do
  match ← db.findById (EntityType.keyspace α) id with
  | some e => some <$> Task.ofExcept (EntityType.ofEntity e)
  | none => return none

/-- Runs a query over this keyspace; a query over another one is refused. -/
def execute (db : Database) (q : Query) : Task (Page α) := do
  let bound := EntityType.keyspace α
  if q.keyspace ≠ bound then throw (.unsupportedQuery q.keyspace (.boundTo bound))
  let page ← db.execute q
  Task.ofExcept (page.mapM? EntityType.ofEntity)

def query : Query := Query.every (EntityType.keyspace α)

def findAll (db : Database) : Task (List α) := Page.items <$> execute α db (query α)

/-- Every match, in the order of ids. -/
def find (db : Database) (p : Predicate) : Task (List α) :=
  Page.items <$> execute α db ((query α).and p)

def findPage (db : Database) (p : Predicate) (r : PageRequest) : Task (Page α) :=
  execute α db (((query α).and p).withPage r)

end Repository

end IndexedStore
