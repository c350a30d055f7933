import IndexedStore.Number.FloatText

/-! # Distances

A length in one of four units, each a fixed number of metres.
-/

namespace IndexedStore

inductive Metric where
  | meters
  | kilometers
  | miles
  | feet
deriving DecidableEq, Inhabited

namespace Metric

def metersPerUnit : Metric → Float
  | .meters => 1
  | .kilometers => 1000
  | .miles => 1609.34
  | .feet => 0.3048

def symbol : Metric → String
  | .meters => "m"
  | .kilometers => "km"
  | .miles => "mi"
  | .feet => "ft"

end Metric

structure Distance where
  value : Float
  metric : Metric
deriving DecidableEq

namespace Distance

def toMeters (d : Distance) : Float := d.value * d.metric.metersPerUnit

def ofMeters (meters : Float) (metric : Metric) : Distance :=
  ⟨meters / metric.metersPerUnit, metric⟩

/-- A radius can be searched when it is finite and not negative. -/
def isValid (d : Distance) : Bool := d.value.isFinite && 0 ≤ d.value

def same (d e : Distance) : Bool := d.value == e.value && d.metric == e.metric

def display (d : Distance) : String := Number.plainText d.value ++ d.metric.symbol

end Distance

end IndexedStore
