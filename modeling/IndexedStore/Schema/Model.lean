/-! # Keyspace models

What is declared about one keyspace: the paths indexed for equality, the paths
indexed by position, and the fields that refer to entities of other keyspaces.
-/

namespace IndexedStore

structure ReferenceModel where
  field : String
  target : String
deriving DecidableEq

structure KeyspaceModel where
  name : String
  indexes : List String
  geoIndexes : List String
  references : List ReferenceModel
deriving DecidableEq

namespace KeyspaceModel

def isIndexed (m : KeyspaceModel) (path : String) : Bool := m.indexes.contains path

def isGeoIndexed (m : KeyspaceModel) (path : String) : Bool := m.geoIndexes.contains path

def referenceFor? (m : KeyspaceModel) (field : String) : Option ReferenceModel :=
  m.references.find? fun r => r.field = field

end KeyspaceModel

end IndexedStore
