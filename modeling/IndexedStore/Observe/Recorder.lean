import IndexedStore.Observe.Report

/-! # Recorders

A recorder adds the events that it is told of to its report, until it is told to start again.
-/

namespace IndexedStore

inductive Signal where
  | event (e : Event)
  | reset
deriving DecidableEq

namespace Signal

def event? : Signal → Option Event
  | event e => some e
  | reset => none

end Signal

namespace Report

def hear (r : Report) : Signal → Report
  | .event e => r.add e
  | .reset => zero

/-- The report of a recorder that was told these signals, the first one first. -/
def ofSignals (signals : List Signal) : Report := signals.foldl hear zero

end Report

end IndexedStore
