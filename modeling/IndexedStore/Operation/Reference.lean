import IndexedStore.Error
import IndexedStore.Operation.Load

/-! # References between entities

A reference field is given as an id or as a saved entity and stored as an id. Reading
replaces it by the stored entity, one level deep, or by null when there is none.
-/

namespace IndexedStore

namespace KeyspaceModel

/-- The id that the value of a reference field stands for. -/
def referenceId (r : ReferenceModel) : Value → Except ReferenceFault String
  | .text id => if id = "" then .error .emptyId else .ok id
  | .entity keyspace id _ =>
    if keyspace ≠ r.target then .error (.wrongKeyspace r.target keyspace)
    else
      match id with
      | none => .error .unsaved
      | some id => if id = "" then .error .emptyId else .ok id
  | v => .error (.notAReference v)

def normalizeField (m : KeyspaceModel) (fields : Fields) (r : ReferenceModel) :
    Except Error Fields :=
  match Assoc.lookup r.field fields with
  | none | some .null | some (.ref _) => .ok fields
  | some v =>
    match referenceId r v with
    | .ok id => .ok (Assoc.insert r.field (.ref id) fields)
    | .error fault => .error (.invalidReference m.name r.field fault)

/-- Every declared reference field becomes a plain id. -/
def normalize (m : KeyspaceModel) (e : Entity) : Except Error Entity :=
  (m.references.foldlM m.normalizeField e.fields).map fun fields => { e with fields := fields }

end KeyspaceModel

namespace Task

def resolveField (m : KeyspaceModel) (e : Entity) (r : ReferenceModel) : Task Entity := do
  match e.get? r.field with
  | some (.ref id) =>
    match ← load r.target id with
    | some target => return e.set r.field (Value.ofEntity target)
    | none =>
      emit (.missed m.name r.field)
      return e.set r.field .null
  | _ => return e

def resolve (m : KeyspaceModel) (e : Entity) : Task Entity :=
  m.references.foldlM (resolveField m) e

end Task

end IndexedStore
