import IndexedStore.Observe.Event

/-! # Log lines

Notes tell what an operation did; a note is more prominent in verbose mode. Notes
and events are written as lines: a message and named fields.
-/

namespace IndexedStore

inductive Note where
  | saved (keyspace id : String) (created : Bool) (inserts removes writes : Nat)
  | deleted (keyspace id : String) (removes : Nat)
  | deletedAbsent (keyspace id : String)
  | flushed (keyspace : String) (removed writes : Nat)
  | queried (keyspace access : String) (total returned : Nat)
  | dangling (keyspace id : String)
deriving DecidableEq

inductive LogLevel where
  | trace
  | debug
deriving DecidableEq

inductive LogField where
  | text (s : String)
  | count (n : Nat)
  | flag (b : Bool)
deriving DecidableEq

structure LogLine where
  level : LogLevel
  message : String
  fields : List (String × LogField)
deriving DecidableEq

namespace LogLevel

def label : LogLevel → String
  | trace => "trace"
  | debug => "debug"

end LogLevel

namespace Note

def line (verbose : Bool) (n : Note) : LogLine :=
  let level : LogLevel := if verbose then .debug else .trace
  match n with
  | saved k id created inserts removes writes =>
    ⟨level, "saved entity", [("keyspace", .text k), ("id", .text id), ("created", .flag created),
      ("index_inserts", .count inserts), ("index_removes", .count removes),
      ("writes", .count writes)]⟩
  | deleted k id removes =>
    ⟨level, "deleted entity", [("keyspace", .text k), ("id", .text id),
      ("index_removes", .count removes)]⟩
  | deletedAbsent k id =>
    ⟨level, "delete of absent entity", [("keyspace", .text k), ("id", .text id)]⟩
  | flushed k removed writes =>
    ⟨level, "flushed keyspace", [("keyspace", .text k), ("removed", .count removed),
      ("writes", .count writes)]⟩
  | queried k access total returned =>
    ⟨level, "executed query", [("keyspace", .text k), ("access", .text access),
      ("total", .count total), ("returned", .count returned)]⟩
  | dangling k id =>
    ⟨.trace, "indexed id has no record", [("keyspace", .text k), ("id", .text id)]⟩

end Note

namespace Event

def line : Event → LogLine
  | started kind k =>
    ⟨.trace, "exec start", [("kind", .text kind.label), ("keyspace", .text k)]⟩
  | finished kind k rows =>
    ⟨.trace, "exec finish", [("kind", .text kind.label), ("keyspace", .text k),
      ("rows_touched", .count rows.toNat)]⟩
  | indexed k inserts removes =>
    ⟨.trace, "index delta", [("keyspace", .text k), ("inserts", .count inserts.toNat),
      ("removes", .count removes.toNat)]⟩
  | lookedUp kind k hits =>
    ⟨.trace, "index lookup", [("kind", .text kind.label), ("keyspace", .text k),
      ("hits", .count hits.toNat)]⟩
  | missed k field =>
    ⟨.trace, "reference miss", [("keyspace", .text k), ("field", .text field)]⟩

end Event

end IndexedStore
