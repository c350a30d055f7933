import IndexedStore.Query.Page
import IndexedStore.Query.Predicate

/-! # Queries

A query names a keyspace, a predicate and a page. Without a predicate every live
entity matches. A query can be put together one step after another.
-/

namespace IndexedStore

structure Query where
  keyspace : String
  predicate : Option Predicate
  page : Option PageRequest

namespace Query

/-- Every live entity, unpaged. -/
def every (keyspace : String) : Query := ⟨keyspace, none, none⟩

def filtered (keyspace : String) (p : Predicate) : Query := ⟨keyspace, some p, none⟩

def withPage (q : Query) (r : PageRequest) : Query := { q with page := some r }

/-- The first predicate stands alone, a later one is joined to what is there. -/
def join (op : Predicate → Predicate → Predicate) (q : Query) (p : Predicate) : Query :=
  { q with predicate := some (match q.predicate with
    | some existing => op existing p
    | none => p) }

def and (q : Query) (p : Predicate) : Query := q.join Predicate.and p

def or (q : Query) (p : Predicate) : Query := q.join Predicate.or p

def filter (q : Query) (p : Predicate) : Query := q.and p

def near (q : Query) (field : String) (center : GeoPoint) (distance : Distance) : Query :=
  q.and (.near field center distance)

end Query

end IndexedStore
