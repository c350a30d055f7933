/-! # Key segments

A key is a row of segments between separators. Inside a segment the separator and
the escape character are escaped, so that a segment is read back unambiguously.
-/

namespace IndexedStore.Key

def escapeChar (c : Char) : List Char := if c = '\\' || c = ':' then ['\\', c] else [c]

def escape (s : List Char) : List Char := s.flatMap escapeChar

/-- The text of one escaped segment; none where a separator stands bare or an escape
is the last character. -/
def unescape : List Char → Option (List Char)
  | [] => some []
  | '\\' :: c :: rest => (unescape rest).map (c :: ·)
  | ['\\'] => none
  | ':' :: _ => none
  | c :: rest => (unescape rest).map (c :: ·)

def escapeSegment (s : String) : String := String.ofList (escape s.toList)

def unescapeSegment (s : String) : Option String := (unescape s.toList).map String.ofList

def hasPrefix (start key : String) : Bool := start.toList.isPrefixOf key.toList

/-- The id that stands behind `start` in a key: one escaped segment, not empty. -/
def trailingId? (start key : String) : Option String :=
  if hasPrefix start key then
    match unescape (key.toList.drop start.toList.length) with
    | some (c :: cs) => some (String.ofList (c :: cs))
    | _ => none
  else none

end IndexedStore.Key
