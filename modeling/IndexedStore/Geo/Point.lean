import IndexedStore.Number.MulAdd

/-! # Points on the globe

Coordinates in degrees, longitude first, and the great-circle distance between
two points by the haversine formula.
-/

namespace IndexedStore

structure GeoPoint where
  longitude : Float
  latitude : Float
deriving DecidableEq

namespace GeoPoint

/-- The mean radius in metres that radius searches are measured with. -/
def earthRadius : Float := 6372797.560856

/-- Longitude within `[-180, 180]` and latitude within `[-90, 90]`. -/
def isValid (p : GeoPoint) : Bool :=
  -180 ≤ p.longitude && p.longitude ≤ 180 && -90 ≤ p.latitude && p.latitude ≤ 90

/-- Equality of coordinates as numbers: the two zeros agree and NaN never does. -/
def same (p q : GeoPoint) : Bool := p.longitude == q.longitude && p.latitude == q.latitude

def radians (degrees : Float) : Float := degrees * (3.141592653589793 / 180)

/-- The smaller of `x` and `1`; an undefined `x` counts as `1`. -/
def atMostOne (x : Float) : Float := if x < 1 then x else 1

def haversine (p q : GeoPoint) : Float :=
  let lat₁ := radians p.latitude
  let lat₂ := radians q.latitude
  let sinLat := Float.sin ((lat₂ - lat₁) / 2)
  let sinLon := Float.sin (radians (q.longitude - p.longitude) / 2)
  Number.mulAdd (Float.cos lat₁) (Float.cos lat₂ * (sinLon * sinLon)) (sinLat * sinLat)

/-- Great-circle distance in metres. -/
def distanceTo (p q : GeoPoint) : Float :=
  2 * earthRadius * Float.asin (atMostOne (Float.sqrt (haversine p q)))

def display (p : GeoPoint) : String :=
  "(" ++ Number.plainText p.longitude ++ ", " ++ Number.plainText p.latitude ++ ")"

end GeoPoint

end IndexedStore
