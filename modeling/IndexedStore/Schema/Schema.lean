import IndexedStore.Collection.Dict
import IndexedStore.Entity.Path
import IndexedStore.Schema.Model

/-! # Schemas

A schema is a set of keyspace models that passes `KeyspaceModel.checkAll`. The check goes
through the models by name and reports the first fault: the name, the paths, a path
under both kinds of index, the references.
-/

namespace IndexedStore

inductive SchemaError where
  | duplicateKeyspace (name : String)
  | invalidName (name : String)
  | invalidPath (keyspace path : String)
  | conflictingIndex (keyspace path : String)
  | unknownTarget (keyspace field target : String)
  | throughReference (keyspace path field : String)
  | unreadable (reason : String)
  | malformed (reason : String)
deriving DecidableEq

namespace SchemaError

def message : SchemaError → String
  | duplicateKeyspace n => "keyspace '" ++ n ++ "' is declared more than once"
  | invalidName n => "invalid keyspace name '" ++ n ++ "'"
  | invalidPath k p => "invalid field path '" ++ p ++ "' in keyspace '" ++ k ++ "'"
  | conflictingIndex k p =>
    "field '" ++ p ++ "' in keyspace '" ++ k ++ "' is declared both indexed and geo-indexed"
  | unknownTarget k f t =>
    "reference " ++ k ++ "." ++ f ++ " targets unknown keyspace '" ++ t ++ "'"
  | throughReference k p f =>
    "index path '" ++ p ++ "' in keyspace '" ++ k ++ "' descends through reference '" ++ f ++ "'"
  | unreadable r => "failed to read schema file: " ++ r
  | malformed r => "failed to parse schema: " ++ r

end SchemaError

namespace KeyspaceModel

/-- A path has at most `Path.maxDepth` usable segments and does not lead through a
reference of its own model. -/
def checkPath (m : KeyspaceModel) (path : String) : Except SchemaError Unit :=
  let segments := Path.segments path
  if Path.maxDepth < segments.length || !segments.all Path.isValidSegment then
    .error (.invalidPath m.name path)
  else
    match segments with
    | first :: _ :: _ =>
      if (m.referenceFor? first).isSome then .error (.throughReference m.name path first)
      else .ok ()
    | _ => .ok ()

def checkReference (m : KeyspaceModel) (declared : String → Bool) (r : ReferenceModel) :
    Except SchemaError Unit :=
  if !Path.isValidSegment r.field then .error (.invalidPath m.name r.field)
  else if !declared r.target then .error (.unknownTarget m.name r.field r.target)
  else .ok ()

def check (m : KeyspaceModel) (declared : String → Bool) : Except SchemaError Unit := do
  if !Path.isValidSegment m.name then throw (.invalidName m.name)
  (m.indexes ++ m.geoIndexes).forM m.checkPath
  match m.indexes.find? m.isGeoIndexed with
  | some path => throw (.conflictingIndex m.name path)
  | none => m.references.forM (m.checkReference declared)

/-- The first fault of a set of models, by keyspace name. -/
def checkAll (keyspaces : Dict KeyspaceModel) : Except SchemaError Unit :=
  keyspaces.values.forM (·.check keyspaces.contains)

end KeyspaceModel

/-- Models by keyspace name that pass the check. -/
structure Schema where
  keyspaces : Dict KeyspaceModel
  named : ∀ name m, keyspaces.get? name = some m → m.name = name
  sound : KeyspaceModel.checkAll keyspaces = .ok ()

namespace Schema

/-- Models entered by name, or the first name that comes again. -/
def collect : List KeyspaceModel → Dict KeyspaceModel → Except SchemaError (Dict KeyspaceModel)
  | [], d => .ok d
  | m :: rest, d =>
    if d.contains m.name then .error (.duplicateKeyspace m.name)
    else collect rest (d.insert m.name m)

theorem collect_named {models : List KeyspaceModel} {d d' : Dict KeyspaceModel}
    (hd : ∀ name m, d.get? name = some m → m.name = name) (h : collect models d = .ok d') :
    ∀ name m, d'.get? name = some m → m.name = name := by
  induction models generalizing d with
  | nil =>
    cases h
    exact hd
  | cons m rest ih =>
    simp only [collect] at h
    split at h
    · cases h
    · refine ih (fun name k hk => ?_) h
      rw [Dict.get?_insert] at hk
      split at hk
      · rename_i he
        cases hk
        exact he
      · exact hd name k hk

def ofModels (models : List KeyspaceModel) : Except SchemaError Schema :=
  match hc : collect models Dict.empty with
  | .error e => .error e
  | .ok d =>
    match h : KeyspaceModel.checkAll d with
    | .error e => .error e
    | .ok () => .ok ⟨d, collect_named (fun _ _ hk => by cases hk) hc, h⟩

def keyspace? (s : Schema) (name : String) : Option KeyspaceModel := s.keyspaces.get? name

def models (s : Schema) : List KeyspaceModel := s.keyspaces.values

def isIndexed (s : Schema) (keyspace path : String) : Bool :=
  (s.keyspace? keyspace).any (·.isIndexed path)

def isGeoIndexed (s : Schema) (keyspace path : String) : Bool :=
  (s.keyspace? keyspace).any (·.isGeoIndexed path)

end Schema

end IndexedStore
