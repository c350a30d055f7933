/-! # Events

What the store reports about its own work: operations as they start and finish,
index entries written, lookups made, references that led nowhere.
-/

namespace IndexedStore

inductive ExecKind where
  | load
  | save
  | delete
  | flush
deriving DecidableEq

namespace ExecKind

def label : ExecKind → String
  | load => "load"
  | save => "save"
  | delete => "delete"
  | flush => "flush"

end ExecKind

inductive LookupKind where
  | equality
  | near
  | members
deriving DecidableEq

namespace LookupKind

def label : LookupKind → String
  | equality => "Equality"
  | near => "Near"
  | members => "Members"

end LookupKind

inductive Event where
  | started (kind : ExecKind) (keyspace : String)
  | finished (kind : ExecKind) (keyspace : String) (rows : UInt64)
  | indexed (keyspace : String) (inserts removes : UInt64)
  | lookedUp (kind : LookupKind) (keyspace : String) (hits : UInt64)
  | missed (keyspace field : String)
deriving DecidableEq

end IndexedStore
