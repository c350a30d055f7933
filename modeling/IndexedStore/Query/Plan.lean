import IndexedStore.Error
import IndexedStore.Query.Query

/-! # Planning

A plan is a query whose every leaf names a path with the index that it needs, so
that it can be answered from the indexes alone. Planning looks at the schema only.
-/

namespace IndexedStore

structure Plan where
  model : KeyspaceModel
  predicate : Option Predicate
  page : Option PageRequest

namespace KeyspaceModel

def checkEq (m : KeyspaceModel) (field : String) (value : Value) : Except QueryFault Unit :=
  if m.isGeoIndexed field then .error (.geoOnly field)
  else if !m.isIndexed field then .error (.notIndexed field)
  else if value.token?.isNone then .error (.noToken field value)
  else .ok ()

end KeyspaceModel

namespace Predicate

def checkLeaf (m : KeyspaceModel) : Predicate → Except Error Unit
  | eq field value => (m.checkEq field value).mapError (.unsupportedQuery m.name)
  | near field center distance =>
    if !m.isGeoIndexed field then .error (.unsupportedQuery m.name (.notGeoIndexed field))
    else if !center.isValid then .error (.invalidCoordinate center)
    else if !distance.isValid then .error (.unsupportedQuery m.name (.invalidDistance distance))
    else .ok ()
  | _ => .ok ()

mutual

def check (m : KeyspaceModel) : Predicate → Except Error Unit
  | all children => checkEach m children
  | any children => checkEach m children
  | eq field value => checkLeaf m (eq field value)
  | near field center distance => checkLeaf m (near field center distance)

def checkEach (m : KeyspaceModel) : List Predicate → Except Error Unit
  | [] => .ok ()
  | p :: rest =>
    match p.check m with
    | .ok () => checkEach m rest
    | .error e => .error e

end

/-- How the predicate is looked up, in a few words. -/
def summary : Predicate → String
  | eq field _ => "equality lookup (" ++ field ++ ")"
  | near field _ distance => "radius lookup (" ++ field ++ ", " ++ distance.display ++ ")"
  | all children => "intersection of " ++ toString children.length ++ " lookups"
  | any children => "union of " ++ toString children.length ++ " lookups"

end Predicate

namespace Schema

def model (s : Schema) (keyspace : String) : Except Error KeyspaceModel :=
  match s.keyspace? keyspace with
  | some m => .ok m
  | none => .error (.unknownKeyspace keyspace)

/-- The plan of a query, or the first reason against it: keyspace, page, then leaves. -/
def plan (s : Schema) (q : Query) : Except Error Plan := do
  let m ← s.model q.keyspace
  if q.page.any (·.size = 0) then throw (.unsupportedQuery q.keyspace .emptyPage)
  q.predicate.forM (Predicate.check m)
  return ⟨m, q.predicate, q.page⟩

end Schema

namespace Plan

def summary (p : Plan) : String :=
  match p.predicate with
  | some q => q.summary
  | none => "member scan"

end Plan

end IndexedStore
