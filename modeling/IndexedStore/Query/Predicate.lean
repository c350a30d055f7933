import IndexedStore.Entity.Value
import IndexedStore.Geo.Distance

/-! # Predicates

A predicate is a tree over indexed paths. An empty conjunction matches every live
entity and an empty disjunction none. Whether the paths are indexed is asked when a
query is planned.
-/

namespace IndexedStore

inductive Predicate where
  | eq (field : String) (value : Value)
  | near (field : String) (center : GeoPoint) (distance : Distance)
  | all (children : List Predicate)
  | any (children : List Predicate)

namespace Predicate

mutual

def leafCount : Predicate → Nat
  | eq .. => 1
  | near .. => 1
  | all children => leafCounts children
  | any children => leafCounts children

def leafCounts : List Predicate → Nat
  | [] => 0
  | p :: rest => p.leafCount + leafCounts rest

end

/-- Conjunction; a conjunction on the left takes the right operand in. -/
def and : Predicate → Predicate → Predicate
  | all children, q => all (children ++ [q])
  | p, q => all [p, q]

def or : Predicate → Predicate → Predicate
  | any children, q => any (children ++ [q])
  | p, q => any [p, q]

instance : AndOp Predicate := ⟨and⟩

instance : OrOp Predicate := ⟨or⟩

mutual

/-- Equality with numbers compared as numbers. -/
def same : Predicate → Predicate → Bool
  | eq f v, eq g w => f == g && v.same w
  | near f c d, near g c' d' => f == g && c.same c' && d.same d'
  | all p, all q => sameList p q
  | any p, any q => sameList p q
  | _, _ => false

def sameList : List Predicate → List Predicate → Bool
  | [], [] => true
  | p :: l, q :: m => p.same q && sameList l m
  | _, _ => false

end

end Predicate

end IndexedStore
