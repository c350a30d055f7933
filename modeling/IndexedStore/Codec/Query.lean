import IndexedStore.Codec.Value
import IndexedStore.Query.Query

/-! # Stored predicates, pages and queries -/

namespace IndexedStore

open Cbor (Item)

namespace Predicate

def variantNames : List String := ["Eq", "Near", "And", "Or"]

def eqFieldNames : List String := ["field", "value"]

def nearFieldNames : List String := ["field", "center", "distance"]

mutual

def toItem : Predicate → Item
  | eq field value =>
    Item.variant "Eq" (Item.record [("field", .text field), ("value", value.toItem)])
  | near field center distance =>
    Item.variant "Near" (Item.record [("field", .text field), ("center", center.toItem),
      ("distance", distance.toItem)])
  | all children => Item.variant "And" (.array (childItems children))
  | any children => Item.variant "Or" (.array (childItems children))

def childItems : List Predicate → List Item
  | [] => []
  | p :: rest => p.toItem :: childItems rest

end

def eqOfItem? (i : Item) : Option Predicate :=
  match i.fields? eqFieldNames 0 false with
  | some [some f, some v] =>
    match f.text?, Value.ofItem? v with
    | some f, some v => some (.eq f v)
    | _, _ => none
  | _ => none

def nearOfItem? (i : Item) : Option Predicate :=
  match i.fields? nearFieldNames 0 false with
  | some [some f, some c, some d] =>
    match f.text?, GeoPoint.ofItem? c, Distance.ofItem? d with
    | some f, some c, some d => some (.near f c d)
    | _, _, _ => none
  | _ => none

/-- Reads a predicate that nests at most `n` predicates. -/
def ofItemWithin? : Nat → Item → Option Predicate
  | 0, _ => none
  | n + 1, i =>
    let children (p : Item) := p.list?.bind fun l => l.mapM (ofItemWithin? n)
    match i.variant? variantNames with
    | some (0, some p) => eqOfItem? p
    | some (1, some p) => nearOfItem? p
    | some (2, some p) => (children p).map .all
    | some (3, some p) => (children p).map .any
    | _ => none

def ofItem? (i : Item) : Option Predicate := ofItemWithin? (Cbor.maxNesting + 1) i

end Predicate

instance : Storable Predicate := ⟨Predicate.toItem, Predicate.ofItem?⟩

namespace PageRequest

def toItem (r : PageRequest) : Item :=
  Item.record [("page", .unsigned r.page), ("size", .unsigned r.size)]

def ofItem? (i : Item) : Option PageRequest :=
  match i.fields? ["page", "size"] 0 false with
  | some [some p, some s] =>
    match p.uint64?, s.uint64? with
    | some p, some s => some ⟨p, s⟩
    | _, _ => none
  | _ => none

end PageRequest

instance : Storable PageRequest := ⟨PageRequest.toItem, PageRequest.ofItem?⟩

namespace Query

def toItem (q : Query) : Item :=
  Item.record [("keyspace", .text q.keyspace),
    ("predicate", Item.option Predicate.toItem q.predicate),
    ("page", Item.option PageRequest.toItem q.page)]

def ofItem? (i : Item) : Option Query :=
  match i.fields? ["keyspace", "predicate", "page"] 0 false with
  | some [some k, p, r] =>
    match k.text?, (p.getD .null).option? Predicate.ofItem?,
      (r.getD .null).option? PageRequest.ofItem? with
    | some k, some p, some r => some ⟨k, p, r⟩
    | _, _, _ => none
  | _ => none

end Query

instance : Storable Query := ⟨Query.toItem, Query.ofItem?⟩

end IndexedStore
