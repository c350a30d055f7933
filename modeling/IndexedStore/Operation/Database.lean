import IndexedStore.Operation.Reference
import IndexedStore.Query.Plan

/-! # The handle on a store

A database is a schema over an engine. Its operations first look the keyspace up in
the schema; a keyspace that is not declared is refused before anything happens. The
writers of a keyspace take turns, so that each runs alone. A turn is refused only after
a writer has broken off in the middle of one; writers end with a result or a failure
and never break off, so that turns are not part of the model.
-/

namespace IndexedStore

structure Database where
  schema : Schema
  verbose : Bool

namespace Database

def quiet (s : Schema) : Database := ⟨s, false⟩

def model (db : Database) (keyspace : String) : Task KeyspaceModel :=
  Task.ofExcept (db.schema.model keyspace)

def note (db : Database) (n : Note) : Task Unit := Task.note db.verbose n

def textsDebug (l : List String) : String :=
  "[" ++ String.intercalate ", " (l.map Text.quoted) ++ "]"

def referenceDebug (r : ReferenceModel) : String :=
  "ReferenceModel \x7b field: " ++ Text.quoted r.field ++ ", target: " ++ Text.quoted r.target ++
    " \x7d"

def modelDebug (m : KeyspaceModel) : String :=
  "KeyspaceModel \x7b name: " ++ Text.quoted m.name ++ ", indexes: " ++ textsDebug m.indexes ++
    ", geo_indexes: " ++ textsDebug m.geoIndexes ++ ", references: [" ++
    String.intercalate ", " (m.references.map referenceDebug) ++ "] \x7d"

/-- The handle spelled out for people. -/
def debug (db : Database) : String :=
  let models := db.schema.keyspaces.entries.map fun e => Text.quoted e.1 ++ ": " ++ modelDebug e.2
  "Db \x7b schema: Schema \x7b keyspaces: \x7b" ++ String.intercalate ", " models ++
    "\x7d \x7d, debug: " ++ (if db.verbose then "true" else "false") ++ ", .. \x7d"

end Database

end IndexedStore
