/-! # Quoted strings

Strings in double quotes know escapes, strings in single quotes are taken as they
stand. Three quotes open a string that may run over several lines.
-/

namespace IndexedStore.Toml

/-- Control characters other than the tab never stand in a document. -/
def isPlain (c : Char) : Bool := c = '\t' || (0x20 ≤ c.toNat && c.toNat ≠ 0x7f)

def isBlank (c : Char) : Bool := c = ' ' || c = '\t'

/-- What follows a line break, if the text starts with one. -/
def newline? : List Char → Option (List Char)
  | '\n' :: cs => some cs
  | '\r' :: '\n' :: cs => some cs
  | _ => none

def hexValue? (c : Char) : Option Nat :=
  if '0' ≤ c && c ≤ '9' then some (c.toNat - '0'.toNat)
  else if 'a' ≤ c && c ≤ 'f' then some (c.toNat - 'a'.toNat + 10)
  else if 'A' ≤ c && c ≤ 'F' then some (c.toNat - 'A'.toNat + 10)
  else none

/-- The character whose number stands in the next `n` hexadecimal digits. -/
def hexEscape (n : Nat) (cs : List Char) : Option (Char × List Char) := do
  let ds ← (cs.take n).mapM hexValue?
  let code := ds.foldl (fun v d => 16 * v + d) 0
  if h : ds.length = n ∧ code.isValidChar then some (Char.ofNatAux code h.2, cs.drop n) else none

/-- The character that an escape stands for, read behind the backslash. -/
def escape? : List Char → Option (Char × List Char)
  | 'b' :: cs => some ('\x08', cs)
  | 't' :: cs => some ('\t', cs)
  | 'n' :: cs => some ('\n', cs)
  | 'f' :: cs => some ('\x0c', cs)
  | 'r' :: cs => some ('\r', cs)
  | 'e' :: cs => some ('\x1b', cs)
  | '"' :: cs => some ('"', cs)
  | '\\' :: cs => some ('\\', cs)
  | 'x' :: cs => hexEscape 2 cs
  | 'u' :: cs => hexEscape 4 cs
  | 'U' :: cs => hexEscape 8 cs
  | _ => none

/-- The rest of a string in double quotes. Each step takes a character of the text, so
the text itself is fuel enough. -/
def basicRest : List Char → List Char → List Char → Option (List Char × List Char)
  | [], _, _ => none
  | _ :: fuel, done, cs =>
    match cs with
    | [] => none
    | '"' :: cs => some (done.reverse, cs)
    | '\\' :: cs =>
      match escape? cs with
      | some (c, cs) => basicRest fuel (c :: done) cs
      | none => none
    | c :: cs => if isPlain c then basicRest fuel (c :: done) cs else none

def literalRest : List Char → List Char → Option (List Char × List Char)
  | _, [] => none
  | done, '\'' :: cs => some (done.reverse, cs)
  | done, c :: cs => if isPlain c then literalRest (c :: done) cs else none

/-- What follows the closing quotes, and the quotes before them that still belong to
the string: at most two. -/
def closing? (q : Char) (cs : List Char) : Option (List Char × List Char) :=
  let run := (cs.takeWhile (· = q)).length
  if run < 3 then none
  else some (List.replicate (min run 5 - 3) q, cs.drop (min run 5))

/-- Passes over blanks and whole line breaks. -/
def skipBreaks : List Char → List Char
  | '\r' :: '\n' :: cs => skipBreaks cs
  | c :: cs => if isBlank c || c = '\n' then skipBreaks cs else c :: cs
  | [] => []

/-- What follows a backslash at the end of a line, the line break, and the blanks and
line breaks after it. -/
def continued? (cs : List Char) : Option (List Char) :=
  (newline? (cs.dropWhile isBlank)).map skipBreaks

def basicLines : List Char → List Char → List Char → Option (List Char × List Char)
  | [], _, _ => none
  | _ :: fuel, done, cs =>
    match closing? '"' cs with
    | some (quotes, cs) => some (done.reverse ++ quotes, cs)
    | none =>
      match cs with
      | [] => none
      | '\\' :: cs =>
        match continued? cs with
        | some cs => basicLines fuel done cs
        | none =>
          match escape? cs with
          | some (c, cs) => basicLines fuel (c :: done) cs
          | none => none
      | '\r' :: '\n' :: cs => basicLines fuel ('\n' :: '\r' :: done) cs
      | c :: cs => if isPlain c || c = '\n' then basicLines fuel (c :: done) cs else none

def literalLines : List Char → List Char → List Char → Option (List Char × List Char)
  | [], _, _ => none
  | _ :: fuel, done, cs =>
    match closing? '\'' cs with
    | some (quotes, cs) => some (done.reverse ++ quotes, cs)
    | none =>
      match cs with
      | [] => none
      | '\r' :: '\n' :: cs => literalLines fuel ('\n' :: '\r' :: done) cs
      | c :: cs => if isPlain c || c = '\n' then literalLines fuel (c :: done) cs else none

/-- A line break right behind the opening quotes is left out. -/
def dropFirstBreak (cs : List Char) : List Char := (newline? cs).getD cs

/-- A string on one line; none when the text does not start with a quote. -/
def lineString? (cs : List Char) : Option (List Char × List Char) :=
  match cs with
  | '"' :: rest => basicRest cs [] rest
  | '\'' :: rest => literalRest [] rest
  | _ => none

def string? (cs : List Char) : Option (List Char × List Char) :=
  match cs with
  | '"' :: '"' :: '"' :: rest => basicLines cs [] (dropFirstBreak rest)
  | '\'' :: '\'' :: '\'' :: rest => literalLines cs [] (dropFirstBreak rest)
  | _ => lineString? cs

end IndexedStore.Toml
