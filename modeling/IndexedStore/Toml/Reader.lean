import IndexedStore.Toml.Quote
import IndexedStore.Toml.Scalar

/-! # Reading documents

A document is read line by line into statements. Arrays and inline tables may run
over several lines and nest at most `maxDepth` deep; a dotted key stands on one line
and has at most as many parts.
-/

namespace IndexedStore.Toml

def maxDepth : Nat := 80

def skipBlanks (cs : List Char) : List Char := cs.dropWhile isBlank

/-- Skips a comment up to the end of its line; none when it holds a control character. -/
def skipComment : List Char → Option (List Char)
  | '#' :: cs =>
    let rest := cs.dropWhile isPlain
    if rest.isEmpty || (newline? rest).isSome then some rest else none
  | cs => some cs

def skipLines : List Char → List Char → Option (List Char)
  | [], cs => some cs
  | _ :: fuel, cs =>
    match skipComment (skipBlanks cs) with
    | none => none
    | some rest =>
      match newline? rest with
      | some rest => skipLines fuel rest
      | none => some rest

def skipSpace (cs : List Char) : Option (List Char) := skipLines cs cs

def isBareKeyChar (c : Char) : Bool :=
  ('a' ≤ c && c ≤ 'z') || ('A' ≤ c && c ≤ 'Z') || isDecimal c || c = '_' || c = '-'

def simpleKey? (cs : List Char) : Option (String × List Char) :=
  match cs with
  | '"' :: _ | '\'' :: _ => (lineString? cs).map fun r => (String.ofList r.1, r.2)
  | _ =>
    let key := cs.takeWhile isBareKeyChar
    if key.isEmpty then none else some (String.ofList key, cs.dropWhile isBareKeyChar)

def keyRest : List Char → KeyPath → List Char → Option (KeyPath × List Char)
  | [], _, _ => none
  | _ :: fuel, done, cs =>
    match simpleKey? (skipBlanks cs) with
    | none => none
    | some (key, rest) =>
      match skipBlanks rest with
      | '.' :: rest => keyRest fuel (key :: done) rest
      | rest => some ((key :: done).reverse, rest)

def key? (cs : List Char) : Option (KeyPath × List Char) :=
  (keyRest cs [] cs).filter fun r => r.1.length ≤ maxDepth

/-- Bare scalars end at blanks, line breaks, comments and the signs of the structure. -/
def isBareScalarChar (c : Char) : Bool :=
  !isBlank c && !("\r\n#=,[]\x7b\x7d".contains c)

/-- Behind blanks the text goes on with something that is neither quoted nor the end. -/
def runsOn (cs : List Char) : Bool :=
  match skipBlanks cs with
  | c :: _ => isBareScalarChar c && c ≠ '"' && c ≠ '\''
  | [] => false

/-- The text of a bare scalar, which goes on over blanks on its line. -/
def bareText : List Char → List Char → List Char × List Char
  | done, c :: cs =>
    if isBareScalarChar c || (isBlank c && runsOn cs) then bareText (c :: done) cs
    else (done.reverse, c :: cs)
  | done, [] => (done.reverse, [])

def bareScalar? (cs : List Char) : Option (Scalar × List Char) :=
  let (text, rest) := bareText [] cs
  (scalar? text).map fun s => (s, rest)

section Nested

variable (value : List Char → Option (Expr × List Char))

def arrayRest : List Char → List Expr → List Char → Option (List Expr × List Char)
  | [], _, _ => none
  | _ :: fuel, done, cs => do
    match ← skipSpace cs with
    | ']' :: rest => return (done.reverse, rest)
    | cs =>
      let (v, rest) ← value cs
      match ← skipSpace rest with
      | ',' :: rest => arrayRest fuel (v :: done) rest
      | ']' :: rest => return ((v :: done).reverse, rest)
      | _ => none

/-- A key and its value, with what `skip` passes over around the sign between them. -/
def assignment? (skip : List Char → Option (List Char)) (cs : List Char) :
    Option ((KeyPath × Expr) × List Char) := do
  let (path, rest) ← key? cs
  let '=' :: rest ← skip rest | none
  let (v, rest) ← value (← skip rest)
  return ((path, v), rest)

def inlineRest : List Char → List (KeyPath × Expr) → List Char →
    Option (List (KeyPath × Expr) × List Char)
  | [], _, _ => none
  | _ :: fuel, done, cs => do
    match ← skipSpace cs with
    | '\x7d' :: rest => return (done.reverse, rest)
    | cs =>
      let (entry, rest) ← assignment? value skipSpace cs
      match ← skipSpace rest with
      | ',' :: rest => inlineRest fuel (entry :: done) rest
      | '\x7d' :: rest => return ((entry :: done).reverse, rest)
      | _ => none

end Nested

/-- A value in which at most `d` arrays and inline tables lie inside one another. -/
def value? (d : Nat) (cs : List Char) : Option (Expr × List Char) :=
  match cs with
  | '"' :: _ | '\'' :: _ =>
    (string? cs).map fun r => (.scalar (.string (String.ofList r.1)), r.2)
  | '[' :: rest =>
    match d with
    | 0 => none
    | d + 1 => (arrayRest (value? d) cs [] rest).map fun r => (.array r.1, r.2)
  | '\x7b' :: rest =>
    match d with
    | 0 => none
    | d + 1 => (inlineRest (value? d) cs [] rest).map fun r => (.inline r.1, r.2)
  | _ => (bareScalar? cs).map fun r => (.scalar r.1, r.2)

def statement? (cs : List Char) : Option (Statement × List Char) :=
  match cs with
  | '[' :: '[' :: rest => do
    let (path, rest) ← key? rest
    let ']' :: ']' :: rest := rest | none
    return (.element path, rest)
  | '[' :: rest => do
    let (path, rest) ← key? rest
    let ']' :: rest := rest | none
    return (.table path, rest)
  | _ =>
    (assignment? (value? maxDepth) (some ∘ skipBlanks) cs).map fun r =>
      (.assign r.1.1 r.1.2, r.2)

/-- Nothing but a comment may follow a statement on its line. -/
def endOfLine? (cs : List Char) : Option (List Char) := do
  let rest ← skipComment (skipBlanks cs)
  if rest.isEmpty then return [] else newline? rest

def statementsRest : List Char → List Statement → List Char → Option (List Statement)
  | [], done, cs => do
    let [] ← skipSpace cs | none
    return done.reverse
  | _ :: fuel, done, cs => do
    match ← skipSpace cs with
    | [] => return done.reverse
    | cs =>
      let (s, rest) ← statement? cs
      statementsRest fuel (s :: done) (← endOfLine? rest)

/-- The statements of a document; a byte order mark in front is passed over. -/
def statements? (cs : List Char) : Option (List Statement) :=
  let cs := match cs with
    | '\ufeff' :: rest => rest
    | _ => cs
  statementsRest cs [] cs

end IndexedStore.Toml
