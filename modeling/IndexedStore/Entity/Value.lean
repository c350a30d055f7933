import IndexedStore.Collection.Assoc
import IndexedStore.Geo.Point
import IndexedStore.Text.Quoted

/-! # Field values

A value is a scalar, a point, a reference to an entity of another keyspace, or a
nested record: an anonymous field map (`embedded`) or a whole entity (`entity`).
Field maps are association lists; `Value.Ordered` says that each of them, at any
depth, lists its names in strictly increasing order.
-/

namespace IndexedStore

inductive Value where
  | null
  | bool (b : Bool)
  | int (n : Int64)
  | float (x : Float)
  | text (s : String)
  | point (p : GeoPoint)
  | ref (id : String)
  | embedded (fields : List (String × Value))
  | entity (keyspace : String) (id : Option String) (fields : List (String × Value))
deriving Inhabited

abbrev Fields := List (String × Value)

namespace Value

mutual

def Ordered : Value → Prop
  | embedded fields => Assoc.Sorted fields ∧ AllOrdered fields
  | entity _ _ fields => Assoc.Sorted fields ∧ AllOrdered fields
  | _ => True

def AllOrdered : List (String × Value) → Prop
  | [] => True
  | (_, v) :: fields => v.Ordered ∧ AllOrdered fields

end

def asText? : Value → Option String
  | text s => some s
  | _ => none

def asPoint? : Value → Option GeoPoint
  | point p => some p
  | _ => none

/-- The id a reference-shaped value points at. -/
def referenceId? : Value → Option String
  | ref id => some id
  | entity _ id _ => id
  | _ => none

/-- The text two values must share to count as equal in an index: numbers share it when
they are shown alike, with each other and with that spelling as text. -/
def token? : Value → Option String
  | bool b => some (if b then "true" else "false")
  | int n => some (toString n.toInt)
  | float x =>
    if x.isFinite then some (Number.plainText (if x == 0 then 0 else x)) else none
  | text s => some s
  | ref id => some id
  | entity _ id _ => id
  | null | point _ | embedded _ => none

def child? (name : String) : Value → Option Value
  | embedded fields => Assoc.lookup name fields
  | entity _ _ fields => Assoc.lookup name fields
  | _ => none

mutual

/-- Every point held by the value, fields by name and depth first. -/
def points : Value → List GeoPoint
  | point p => [p]
  | embedded fields => fieldPoints fields
  | entity _ _ fields => fieldPoints fields
  | _ => []

def fieldPoints : List (String × Value) → List GeoPoint
  | [] => []
  | (_, v) :: fields => v.points ++ fieldPoints fields

end

mutual

/-- Equality as numbers compare: the two zeros agree and NaN differs from itself. -/
def same : Value → Value → Bool
  | null, null => true
  | bool b, bool c => b == c
  | int m, int n => m == n
  | float x, float y => x == y
  | text s, text t => s == t
  | point p, point q => p.same q
  | ref a, ref b => a == b
  | embedded f, embedded g => sameFields f g
  | entity k i f, entity l j g => k == l && i == j && sameFields f g
  | _, _ => false

def sameFields : List (String × Value) → List (String × Value) → Bool
  | [], [] => true
  | (a, v) :: f, (b, w) :: g => a == b && v.same w && sameFields f g
  | _, _ => false

end

end Value

def optionDebug : Option String → String
  | some s => "Some(" ++ Text.quoted s ++ ")"
  | none => "None"

namespace GeoPoint

def debug (p : GeoPoint) : String :=
  "GeoPoint \x7b longitude: " ++ Number.debugText p.longitude ++
    ", latitude: " ++ Number.debugText p.latitude ++ " \x7d"

end GeoPoint

namespace Value

mutual

def debug : Value → String
  | null => "Null"
  | bool b => "Bool(" ++ (if b then "true" else "false") ++ ")"
  | int n => "Int(" ++ toString n.toInt ++ ")"
  | float x => "Float(" ++ Number.debugText x ++ ")"
  | text s => "Text(" ++ Text.quoted s ++ ")"
  | point p => "Point(" ++ p.debug ++ ")"
  | ref id => "Ref(" ++ Text.quoted id ++ ")"
  | embedded fields => "Embedded(\x7b" ++ debugFields fields ++ "\x7d)"
  | entity k i fields =>
    "Entity(Entity \x7b keyspace: " ++ Text.quoted k ++ ", id: " ++ optionDebug i ++
      ", fields: \x7b" ++ debugFields fields ++ "\x7d \x7d)"

def debugFields : List (String × Value) → String
  | [] => ""
  | (name, v) :: fields => Text.quoted name ++ ": " ++ v.debug ++ debugRest fields

def debugRest : List (String × Value) → String
  | [] => ""
  | (name, v) :: fields => ", " ++ Text.quoted name ++ ": " ++ v.debug ++ debugRest fields

end

end Value

end IndexedStore
