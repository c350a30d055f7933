import IndexedStore.Codec.Value
import IndexedStore.Key.Layout
import IndexedStore.Schema.Schema
import IndexedStore.Storage.Engine

/-! # Records and members -/

namespace IndexedStore

namespace Task

def load (keyspace id : String) : Task (Option Entity) := do
  let key := Key.record keyspace id
  match ← get key with
  | none => return none
  | some b =>
    let r : StoredRecord ← decodeAt key b
    return some ⟨keyspace, some id, r.fields⟩

/-- The stored entities of `ids` in order. Ids without a record are noted and left out. -/
def loadMany (keyspace : String) : List String → Task (List Entity)
  | [] => return []
  | id :: ids => do
    match ← load keyspace id with
    | some e => return e :: (← loadMany keyspace ids)
    | none =>
      note false (.dangling keyspace id)
      loadMany keyspace ids

/-- The ids behind a prefix, one per key of the form prefix and escaped id. -/
def scanIds (start : String) : Task TextSet := do
  let found ← scan start
  return TextSet.ofTexts (found.filterMap fun e => Key.trailingId? start e.1)

def members (keyspace : String) : Task TextSet := scanIds (Key.membersPrefix keyspace)

end Task

end IndexedStore
