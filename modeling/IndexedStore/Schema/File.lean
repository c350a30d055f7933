import IndexedStore.Cbor.Item
import IndexedStore.Schema.Schema
import IndexedStore.Toml.Document

/-! # Schema files

A schema file is a configuration document with a list `keyspace` of models. A model is
a table of its fields, or a list that starts with their values in declared order.
-/

namespace IndexedStore

open Toml (Node Entries)

namespace Toml.Node

def string? : Node → Option String
  | scalar (.string s) => some s
  | _ => none

def list? : Node → Option (List Node)
  | array items => some items
  | elements tables => some (tables.reverse.map (.table .declared))
  | _ => none

/-- The values of a record's fields. A table is strict when it may hold nothing else;
otherwise what else it holds is only read. -/
def fields? (names : List String) (strict : Bool) : Node → Option (List (Option Node))
  | table _ es =>
    if es.all fun e => names.contains e.1 || (!strict && e.2.isReadable) then
      some (names.map fun n => Assoc.lookup n es)
    else none
  | n => n.list?.map fun items =>
    (List.range names.length).map fun i => items[i]?

def texts? : Option Node → Option (List String)
  | none => some []
  | some n => n.list?.bind fun l => l.mapM string?

end Toml.Node

namespace ReferenceModel

def ofNode? (n : Node) : Option ReferenceModel :=
  match n.fields? ["field", "target"] false with
  | some [some f, some t] =>
    match f.string?, t.string? with
    | some f, some t => some ⟨f, t⟩
    | _, _ => none
  | _ => none

end ReferenceModel

namespace KeyspaceModel

def referencesOfNode? : Option Node → Option (List ReferenceModel)
  | none => some []
  | some n => n.list?.bind fun l => l.mapM ReferenceModel.ofNode?

def ofNode? (n : Node) : Option KeyspaceModel :=
  match n.fields? ["name", "indexes", "geo_indexes", "references"] true with
  | some [some n, x, g, r] =>
    match n.string?, Node.texts? x, Node.texts? g, referencesOfNode? r with
    | some n, some x, some g, some r => some ⟨n, x, g, r⟩
    | _, _, _, _ => none
  | _ => none

end KeyspaceModel

namespace Schema

/-- The models that a document lists; none when it is malformed. -/
def modelsOfText? (text : String) : Option (List KeyspaceModel) := do
  let es ← Toml.document? text
  match (Node.table .declared es).fields? ["keyspace"] true with
  | some [some n] => n.list?.bind fun l => l.mapM KeyspaceModel.ofNode?
  | some [none] => return []
  | _ => none

def ofText (text : String) : Except SchemaError Schema :=
  match modelsOfText? text with
  | some models => ofModels models
  | none => .error (.malformed "not a list of keyspaces")

/-- The schema in a file's bytes. A missing file, or one that is no text, cannot be read. -/
def ofFile : Option Bytes → Except SchemaError Schema
  | none => .error (.unreadable "no such file")
  | some b =>
    match Cbor.utf8? b with
    | some text => ofText text
    | none => .error (.unreadable "not a text")

end Schema

end IndexedStore
