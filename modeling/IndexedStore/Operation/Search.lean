import IndexedStore.Operation.Database
import IndexedStore.Index.Entries

/-! # Searching

Queries are answered from the indexes: each leaf is one prefix scan, conjunctions
intersect and disjunctions unite, and the matching ids are cut to the page in
increasing order. Records are fetched for that page only.
-/

namespace IndexedStore

namespace Task

def reportLookup (kind : LookupKind) (keyspace : String) (ids : TextSet) : Task TextSet := do
  emit (.lookedUp kind keyspace (UInt64.ofNat ids.size))
  return ids

def lookupMembers (keyspace : String) : Task TextSet := do
  reportLookup .members keyspace (← members keyspace)

/-- The ids of entities whose `path` has the token of `value`. -/
def lookupEq (keyspace path : String) (value : Value) : Task TextSet := do
  match value.token? with
  | some token =>
    reportLookup .equality keyspace (← scanIds (Key.equalityPrefix keyspace path token))
  | none => reportLookup .equality keyspace Dict.empty

/-- The ids among geo entries whose point lies within `radius` metres of `center`, the
boundary included. Keys that are no geo entries are passed over. -/
def within (start : String) (center : GeoPoint) (radius : Float) :
    List (String × Bytes) → Task (List String)
  | [] => return []
  | (key, b) :: rest => do
    match Key.trailingId? start key with
    | none => within start center radius rest
    | some id =>
      let p : GeoPoint ← decodeAt key b
      let ids ← within start center radius rest
      return if center.distanceTo p ≤ radius then id :: ids else ids

def lookupNear (keyspace path : String) (center : GeoPoint) (distance : Distance) :
    Task TextSet := do
  let start := Key.geoPrefix keyspace path
  let found ← scan start
  let ids ← within start center distance.toMeters found
  reportLookup .near keyspace (TextSet.ofTexts ids)

end Task

namespace Predicate

mutual

def evaluate (keyspace : String) : Predicate → Task TextSet
  | eq field value => Task.lookupEq keyspace field value
  | near field center distance => Task.lookupNear keyspace field center distance
  | all [] => Task.lookupMembers keyspace
  | all (p :: rest) => do
    let ids ← p.evaluate keyspace
    narrow keyspace ids rest
  | any children => widen keyspace Dict.empty children

/-- Intersects with each further predicate; once nothing is left, no more is looked up. -/
def narrow (keyspace : String) (ids : TextSet) : List Predicate → Task TextSet
  | [] => pure ids
  | p :: rest =>
    if ids.isEmpty then pure ids
    else do
      let next ← p.evaluate keyspace
      narrow keyspace (ids.inter next) rest

def widen (keyspace : String) (ids : TextSet) : List Predicate → Task TextSet
  | [] => pure ids
  | p :: rest => do
    let next ← p.evaluate keyspace
    widen keyspace (ids.union next) rest

end

end Predicate

namespace Database

def pageIds (db : Database) (p : Plan) : Task IdPage := do
  let keyspace := p.model.name
  let matched ← match p.predicate with
    | some q => q.evaluate keyspace
    | none => Task.lookupMembers keyspace
  let ids := match p.page with
    | some r => r.slice matched.keys
    | none => matched.keys
  db.note (.queried keyspace p.summary matched.size ids.length)
  return ⟨ids, UInt64.ofNat matched.size⟩

/-- The matching ids of one page and the number of all matches. -/
def executeIds (db : Database) (q : Query) : Task IdPage := do
  let p ← Task.ofExcept (db.schema.plan q)
  db.pageIds p

def fetchPage (db : Database) (p : Plan) : Task (Page Entity) := do
  let ids ← db.pageIds p
  let found ← Task.loadMany p.model.name ids.ids
  let items ← found.mapM (Task.resolve p.model)
  return ⟨items, p.page, ids.total⟩

/-- The matching entities of one page, their references resolved. -/
def execute (db : Database) (q : Query) : Task (Page Entity) := do
  let p ← Task.ofExcept (db.schema.plan q)
  Task.spanned .load p.model.name (fun page => page.items.length) (db.fetchPage p)

def findAll (db : Database) (keyspace : String) (page : Option PageRequest) : Task (Page Entity) :=
  db.execute ⟨keyspace, none, page⟩

def findById (db : Database) (keyspace id : String) : Task (Option Entity) := do
  let m ← db.model keyspace
  Task.spanned .load m.name (fun e => if e.isSome then 1 else 0) do
    match ← Task.load m.name id with
    | some e => some <$> Task.resolve m e
    | none => return none

/-- The entities of several ids in order; ids without one are left out. -/
def findByIds (db : Database) (keyspace : String) (ids : List String) : Task (List Entity) := do
  let m ← db.model keyspace
  Task.spanned .load m.name List.length do
    let found ← ids.mapM (Task.load m.name)
    (found.filterMap id).mapM (Task.resolve m)

/-- Whether there is a record, readable or not. -/
def contains (db : Database) (keyspace id : String) : Task Bool := do
  let m ← db.model keyspace
  return (← Task.get (Key.record m.name id)).isSome

def count (db : Database) (keyspace : String) : Task Nat := do
  let m ← db.model keyspace
  return (← Task.lookupMembers m.name).size

end Database

end IndexedStore
