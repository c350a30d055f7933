import IndexedStore.Collection.Dict
import IndexedStore.Number.Saturating
import IndexedStore.Observe.Event

/-! # Reports

A report adds events up. Counters stop at the largest word.
-/

namespace IndexedStore

open Number

structure KeyspaceCounters where
  loadCalls : UInt64
  saveCalls : UInt64
  deleteCalls : UInt64
  flushCalls : UInt64
  rowsLoaded : UInt64
  rowsDeleted : UInt64
deriving DecidableEq

namespace KeyspaceCounters

def zero : KeyspaceCounters := ⟨0, 0, 0, 0, 0, 0⟩

def start (c : KeyspaceCounters) : ExecKind → KeyspaceCounters
  | .load => { c with loadCalls := satAdd c.loadCalls 1 }
  | .save => { c with saveCalls := satAdd c.saveCalls 1 }
  | .delete => { c with deleteCalls := satAdd c.deleteCalls 1 }
  | .flush => { c with flushCalls := satAdd c.flushCalls 1 }

/-- Rows are counted for reads and removals; a save has none. -/
def finish (c : KeyspaceCounters) (rows : UInt64) : ExecKind → KeyspaceCounters
  | .load => { c with rowsLoaded := satAdd c.rowsLoaded rows }
  | .save => c
  | .delete | .flush => { c with rowsDeleted := satAdd c.rowsDeleted rows }

end KeyspaceCounters

structure Report where
  keyspaces : Dict KeyspaceCounters
  indexInserts : UInt64
  indexRemoves : UInt64
  equalityLookups : UInt64
  nearLookups : UInt64
  memberLookups : UInt64
  referenceMisses : UInt64
deriving DecidableEq

namespace Report

def zero : Report := ⟨Dict.empty, 0, 0, 0, 0, 0, 0⟩

/-- The counters of a keyspace; one that was never named has zeros. -/
def keyspace (r : Report) (name : String) : KeyspaceCounters :=
  (r.keyspaces.get? name).getD .zero

def adjust (r : Report) (name : String) (f : KeyspaceCounters → KeyspaceCounters) : Report :=
  { r with keyspaces := r.keyspaces.insert name (f (r.keyspace name)) }

def add (r : Report) : Event → Report
  | .started kind k => r.adjust k fun c => c.start kind
  | .finished kind k rows => r.adjust k fun c => c.finish rows kind
  | .indexed _ inserts removes =>
    { r with indexInserts := satAdd r.indexInserts inserts
             indexRemoves := satAdd r.indexRemoves removes }
  | .lookedUp .equality _ _ => { r with equalityLookups := satAdd r.equalityLookups 1 }
  | .lookedUp .near _ _ => { r with nearLookups := satAdd r.nearLookups 1 }
  | .lookedUp .members _ _ => { r with memberLookups := satAdd r.memberLookups 1 }
  | .missed _ _ => { r with referenceMisses := satAdd r.referenceMisses 1 }

def ofEvents (events : List Event) : Report := events.foldl add zero

end Report

end IndexedStore
