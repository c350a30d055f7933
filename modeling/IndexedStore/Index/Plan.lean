import IndexedStore.Index.Entries
import IndexedStore.Storage.Batch

/-! # Index plans

The changes to index entries that go with a write. An equality entry is written when
the entity does not own it yet, a geo entry on every save, and entries that are owned
but no longer asked for are removed.
-/

namespace IndexedStore

structure IndexPlan where
  remove : List IndexRef
  insert : List String
  geo : List (String × GeoPoint)
  /-- Every entry the entity owns after the write. -/
  refs : BackRefs

namespace IndexPlan

def inserts (p : IndexPlan) : Nat := p.insert.length + p.geo.length

def removes (p : IndexPlan) : Nat := p.remove.length

def ofEntries (owned : BackRefs) (x : IndexEntries) : IndexPlan where
  remove := owned.toList.filter fun r => !x.refs.contains r
  insert := x.equality.keys.filter fun k => !owned.equality.contains k
  geo := x.geo.entries
  refs := x.refs

def forSave (m : KeyspaceModel) (owned : BackRefs) (e : Entity) (id : String) :
    Except Error IndexPlan :=
  (IndexEntries.derive m e id).map (ofEntries owned)

def forDelete (owned : BackRefs) : IndexPlan := ⟨owned.toList, [], [], BackRefs.empty⟩

/-- Stages the plan of the entity `id` and reports it. The list of owned entries is
stored, or removed when there are none. -/
def stage (p : IndexPlan) (b : Batch) (keyspace id : String) : Task Batch := do
  let b := b.deleteAll (p.remove.map IndexRef.key)
  let b := p.insert.foldl (fun b k => b.put k []) b
  let b ← p.geo.foldlM (fun b g => b.store g.1 g.2) b
  let key := Key.backRefs keyspace id
  let b ← if p.refs.isEmpty then pure (b.delete key) else b.store key p.refs
  Task.emit (.indexed keyspace (UInt64.ofNat p.inserts) (UInt64.ofNat p.removes))
  return b

end IndexPlan

namespace BackRefs

/-- The entries that an entity owns: the stored list, or without one the entries its
stored record would have under the model. -/
def owned (b : Batch) (m : KeyspaceModel) (id : String) (old : Option Entity) : Task BackRefs := do
  match ← b.read? (Key.backRefs m.name id) with
  | some refs => return refs
  | none =>
    match old with
    | some e => Task.ofExcept ((IndexEntries.derive m e id).map IndexEntries.refs)
    | none => return BackRefs.empty

end BackRefs

end IndexedStore
