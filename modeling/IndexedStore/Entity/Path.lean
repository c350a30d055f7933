/-! # Field paths

A path names a field, or through dots a field of nested records. Paths are
followed through at most `maxDepth` segments.
-/

namespace IndexedStore.Path

def maxDepth : Nat := 8

/-- The pieces between dots; there is always at least one. -/
def splitDots : List Char → List (List Char)
  | [] => [[]]
  | c :: cs =>
    match splitDots cs with
    | [] => [[c]]
    | s :: rest => if c = '.' then [] :: s :: rest else (c :: s) :: rest

def segments (path : String) : List String := (splitDots path.toList).map String.ofList

/-- A usable segment is not empty and holds no key separator. -/
def isValidSegment (s : String) : Bool := s ≠ "" && !s.toList.contains ':'

theorem splitDots_ne_nil (cs : List Char) : splitDots cs ≠ [] := by
  cases cs with
  | nil => simp [splitDots]
  | cons c cs => unfold splitDots; split <;> (try split) <;> simp

end IndexedStore.Path
