import IndexedStore.Key.Segment

/-! # The layout of keys

Per live entity of a keyspace `K` there is a membership marker `K::id`, a record
`K:id` and, when any index entry belongs to it, the list of those entries
`K:id:idx`. Index entries are `K:path:token:index:id` and `K:path:geo:id`.
-/

namespace IndexedStore.Key

/-- What every key of a keyspace starts with. -/
def keyspacePrefix (keyspace : String) : String := keyspace ++ ":"

def membersPrefix (keyspace : String) : String := keyspace ++ "::"

def member (keyspace id : String) : String := membersPrefix keyspace ++ escapeSegment id

def record (keyspace id : String) : String := keyspacePrefix keyspace ++ escapeSegment id

def backRefs (keyspace id : String) : String := record keyspace id ++ ":idx"

def equalityPrefix (keyspace path token : String) : String :=
  keyspacePrefix keyspace ++ escapeSegment path ++ ":" ++ escapeSegment token ++ ":index:"

def equality (keyspace path token id : String) : String :=
  equalityPrefix keyspace path token ++ escapeSegment id

def geoPrefix (keyspace path : String) : String :=
  keyspacePrefix keyspace ++ escapeSegment path ++ ":geo:"

def geo (keyspace path id : String) : String := geoPrefix keyspace path ++ escapeSegment id

end IndexedStore.Key
