import IndexedStore.Codec.Value
import IndexedStore.Key.Layout
import IndexedStore.Schema.Model

/-! # Index entries

The entries of an entity are keys of the backing store: equality entries carry
nothing, geo entries their point. `IndexEntries.derive` gives the entries that a model
asks for, `BackRefs` records those that were written.
-/

namespace IndexedStore

open Cbor (Item)

/-- The key of one index entry. -/
inductive IndexRef where
  | equality (key : String)
  | geo (key : String)
deriving DecidableEq

namespace IndexRef

def key : IndexRef → String
  | equality k => k
  | geo k => k

def toItem : IndexRef → Item
  | equality k => Item.variant "Equality" (.text k)
  | geo k => Item.variant "Geo" (.text k)

def ofItem? (i : Item) : Option IndexRef :=
  match i.variant? ["Equality", "Geo"] with
  | some (0, some k) => k.text?.map equality
  | some (1, some k) => k.text?.map geo
  | _ => none

end IndexRef

/-- The index entries that belong to an entity. -/
structure BackRefs where
  equality : TextSet
  geo : TextSet
deriving DecidableEq

namespace BackRefs

def empty : BackRefs := ⟨Dict.empty, Dict.empty⟩

def isEmpty (r : BackRefs) : Bool := r.equality.isEmpty && r.geo.isEmpty

/-- Equality entries before geo entries, each kind by key. -/
def toList (r : BackRefs) : List IndexRef :=
  r.equality.keys.map .equality ++ r.geo.keys.map .geo

def insert (r : BackRefs) : IndexRef → BackRefs
  | .equality k => { r with equality := r.equality.insertText k }
  | .geo k => { r with geo := r.geo.insertText k }

def ofList (l : List IndexRef) : BackRefs := l.foldl insert empty

def contains (r : BackRefs) : IndexRef → Bool
  | .equality k => r.equality.contains k
  | .geo k => r.geo.contains k

def toItem (r : BackRefs) : Item := .array (r.toList.map IndexRef.toItem)

def ofItem? (i : Item) : Option BackRefs :=
  (i.list?.bind fun l => l.mapM IndexRef.ofItem?).map ofList

end BackRefs

instance : Storable BackRefs := ⟨BackRefs.toItem, BackRefs.ofItem?⟩

/-- The entries that an entity should have: equality keys, and geo keys with their
points. -/
structure IndexEntries where
  equality : TextSet
  geo : Dict GeoPoint

namespace IndexEntries

def equalityKey? (m : KeyspaceModel) (e : Entity) (id path : String) : Option String :=
  ((e.getPath? path).bind Value.token?).map fun token => Key.equality m.name path token id

/-- The point at a geo-indexed path. A path that leads nowhere or to null has no
entry; any other value than a valid point is refused. -/
def pointAt (m : KeyspaceModel) (e : Entity) (path : String) : Except Error (Option GeoPoint) :=
  match e.getPath? path with
  | none | some .null => .ok none
  | some (.point p) => p.validate.map fun () => some p
  | some v => .error (.conversion m.name (.notAPoint path v))

def geoEntries (m : KeyspaceModel) (e : Entity) (id : String) :
    List String → Dict GeoPoint → Except Error (Dict GeoPoint)
  | [], d => .ok d
  | path :: rest, d =>
    match pointAt m e path with
    | .error e => .error e
    | .ok none => geoEntries m e id rest d
    | .ok (some p) => geoEntries m e id rest (d.insert (Key.geo m.name path id) p)

def derive (m : KeyspaceModel) (e : Entity) (id : String) : Except Error IndexEntries :=
  let equality := TextSet.ofTexts (m.indexes.filterMap (equalityKey? m e id))
  (geoEntries m e id m.geoIndexes Dict.empty).map fun geo => ⟨equality, geo⟩

def refs (x : IndexEntries) : BackRefs :=
  ⟨x.equality, ⟨x.geo.entries.map fun e => (e.1, ()), by
    have h := x.geo.sorted
    rw [Assoc.Sorted, List.pairwise_map]
    exact h⟩⟩

end IndexEntries

end IndexedStore
