import IndexedStore.Collection.Assoc
import IndexedStore.Toml.Reader

/-! # Documents as tables

The statements of a document build one table. A header may declare a table once,
also one that only lay on the way to another. Dotted keys extend the tables that they
have built or that lay on the way, and none of these is declared afterwards. Inline
tables and arrays are complete as they stand.
-/

namespace IndexedStore.Toml

/-- How a table came to be. -/
inductive Origin where
  /-- It lies on the way to a declared table. -/
  | implied
  | declared
  | dotted
  | inline
deriving DecidableEq

inductive Node where
  | scalar (s : Scalar)
  | array (items : List Node)
  | table (origin : Origin) (entries : List (String × Node))
  /-- A list of declared tables, the latest first. -/
  | elements (tables : List (List (String × Node)))

abbrev Entries := List (String × Node)

namespace Entries

def put (es : Entries) (k : String) (n : Node) : Entries :=
  if (Assoc.lookup k es).isSome then es.map fun e => if e.1 = k then (k, n) else e
  else es ++ [(k, n)]

/-- Assigns a value to a dotted key. The tables on its way are from then on built by
dotted keys; a declared table is closed to them, and so is an element of a list, except
for the tables inside it. -/
def assign (v : Node) : KeyPath → Entries → Option Entries
  | [], _ => none
  | [k], es => if (Assoc.lookup k es).isNone then some (put es k v) else none
  | k :: rest, es =>
    match Assoc.lookup k es with
    | none => (assign v rest []).map fun t => put es k (.table .dotted t)
    | some (.table .dotted t) | some (.table .implied t) =>
      (assign v rest t).map fun t => put es k (.table .dotted t)
    | some (.elements (t :: ts)) =>
      if rest.length = 1 then none
      else (assign v rest t).map fun t => put es k (.elements (t :: ts))
    | _ => none

/-- Changes the table at a header's path by `f`, through tables that may still be
extended and the latest elements of lists. A table missing on the way is implied. -/
def within (f : Entries → String → Option Entries) : KeyPath → Entries → Option Entries
  | [], _ => none
  | [k], es => f es k
  | k :: rest, es =>
    match Assoc.lookup k es with
    | none => (within f rest []).map fun t => put es k (.table .implied t)
    | some (.table .inline _) => none
    | some (.table o t) => (within f rest t).map fun t => put es k (.table o t)
    | some (.elements (t :: ts)) => (within f rest t).map fun t => put es k (.elements (t :: ts))
    | _ => none

def declare (es : Entries) (k : String) : Option Entries :=
  match Assoc.lookup k es with
  | none => some (put es k (.table .declared []))
  | some (.table .implied t) => some (put es k (.table .declared t))
  | _ => none

def declareElement (es : Entries) (k : String) : Option Entries :=
  match Assoc.lookup k es with
  | none => some (put es k (.elements [[]]))
  | some (.elements ts) => some (put es k (.elements ([] :: ts)))
  | _ => none

def assignIn (path : KeyPath) (v : Node) (es : Entries) (k : String) : Option Entries :=
  match Assoc.lookup k es with
  | some (.table o t) => (assign v path t).map fun t => put es k (.table o t)
  | some (.elements (t :: ts)) => (assign v path t).map fun t => put es k (.elements (t :: ts))
  | _ => none

end Entries

namespace Node

mutual

/-- Holds no number that is too large for its type. -/
def isReadable : Node → Bool
  | scalar s => s.isReadable
  | array items => allReadable items
  | table _ entries => allEntriesReadable entries
  | elements tables => allTablesReadable tables

def allReadable : List Node → Bool
  | [] => true
  | n :: rest => n.isReadable && allReadable rest

def allEntriesReadable : List (String × Node) → Bool
  | [] => true
  | (_, n) :: rest => n.isReadable && allEntriesReadable rest

def allTablesReadable : List (List (String × Node)) → Bool
  | [] => true
  | t :: rest => allEntriesReadable t && allTablesReadable rest

end

mutual

def ofExpr : Expr → Option Node
  | .scalar s => some (.scalar s)
  | .array items => (ofExprs items).map .array
  | .inline entries => (ofEntries [] entries).map (.table .inline)

def ofExprs : List Expr → Option (List Node)
  | [] => some []
  | e :: rest =>
    match ofExpr e, ofExprs rest with
    | some n, some ns => some (n :: ns)
    | _, _ => none

def ofEntries (es : Entries) : List (KeyPath × Expr) → Option Entries
  | [] => some es
  | (path, e) :: rest =>
    match ofExpr e with
    | some n =>
      match Entries.assign n path es with
      | some es => ofEntries es rest
      | none => none
    | none => none

end

end Node

structure Draft where
  root : Entries
  header : KeyPath

namespace Draft

def add (d : Draft) : Statement → Option Draft
  | .table path => (Entries.within Entries.declare path d.root).map (⟨·, path⟩)
  | .element path => (Entries.within Entries.declareElement path d.root).map (⟨·, path⟩)
  | .assign path e => do
    let v ← Node.ofExpr e
    let root ← match d.header with
      | [] => Entries.assign v path d.root
      | header => Entries.within (Entries.assignIn path v) header d.root
    return { d with root := root }

end Draft

/-- The root table of a document; none when the text is not a document. -/
def document? (text : String) : Option Entries := do
  let ss ← statements? text.toList
  let d ← ss.foldlM Draft.add ⟨[], []⟩
  return d.root

end IndexedStore.Toml
