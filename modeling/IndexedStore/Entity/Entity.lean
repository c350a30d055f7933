import IndexedStore.Entity.Path
import IndexedStore.Entity.Value

/-! # Entities

A record of one keyspace: an id, given by the first save at the latest, and a
field map. Nested fields are reached by dotted paths.
-/

namespace IndexedStore

structure Entity where
  keyspace : String
  id : Option String
  fields : Fields
deriving Inhabited

namespace Value

def ofEntity (e : Entity) : Value := .entity e.keyspace e.id e.fields

def asEntity? : Value → Option Entity
  | .entity k i f => some ⟨k, i, f⟩
  | _ => none

def descend (v : Value) : List String → Option Value
  | [] => some v
  | s :: rest =>
    match v.child? s with
    | some w => w.descend rest
    | none => none

end Value

namespace Entity

def empty (keyspace : String) : Entity := ⟨keyspace, none, []⟩

def withId (e : Entity) (id : String) : Entity := { e with id := some id }

def set (e : Entity) (field : String) (v : Value) : Entity :=
  { e with fields := Assoc.insert field v e.fields }

def get? (e : Entity) (field : String) : Option Value := Assoc.lookup field e.fields

/-- The value at a dotted path; segments beyond `Path.maxDepth` are not looked at. -/
def getPath? (e : Entity) (path : String) : Option Value :=
  match (Path.segments path).take Path.maxDepth with
  | [] => none
  | s :: rest =>
    match e.get? s with
    | some v => v.descend rest
    | none => none

def text? (e : Entity) (field : String) : Option String := (e.get? field).bind Value.asText?

def point? (e : Entity) (field : String) : Option GeoPoint := (e.get? field).bind Value.asPoint?

def entity? (e : Entity) (field : String) : Option Entity := (e.get? field).bind Value.asEntity?

def same (e f : Entity) : Bool := (Value.ofEntity e).same (Value.ofEntity f)

/-- Field names strictly increase here and in every nested map. -/
def Ordered (e : Entity) : Prop := (Value.ofEntity e).Ordered

def points (e : Entity) : List GeoPoint := Value.fieldPoints e.fields

/-- The first point out of range, in the order of `points`. -/
def invalidPoint? (e : Entity) : Option GeoPoint := e.points.find? fun p => !p.isValid

end Entity

end IndexedStore
