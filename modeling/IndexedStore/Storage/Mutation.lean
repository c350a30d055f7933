import IndexedStore.Storage.Content

/-! # Mutations

The calls that change what a store holds: a single write, a single removal, or a batch of both.
-/

namespace IndexedStore

inductive Mutation where
  | put (key : String) (bytes : Bytes)
  | delete (key : String)
  | batch (writes : List Write)
deriving DecidableEq

namespace Content

def change (c : Content) : Mutation → Content
  | .put k b => c.insert k b
  | .delete k => c.erase k
  | .batch writes => c.apply writes

/-- The content of a store that was empty before these calls. -/
def after (calls : List Mutation) : Content := calls.foldl change Dict.empty

end Content

end IndexedStore
