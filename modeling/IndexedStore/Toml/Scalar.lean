import IndexedStore.Toml.Syntax

/-! # Bare scalars

Numbers, truth values, dates and times. A scalar has its form from the text; what an
integer's digits are worth, and whether a float is too large, counts only where the
number is read.
-/

namespace IndexedStore.Toml

def isDecimal (c : Char) : Bool := '0' ≤ c && c ≤ '9'

def digitValue (c : Char) : Nat :=
  if isDecimal c then c.toNat - '0'.toNat
  else if 'a' ≤ c && c ≤ 'f' then c.toNat - 'a'.toNat + 10
  else if 'A' ≤ c && c ≤ 'F' then c.toNat - 'A'.toNat + 10
  else 36

def isDigitOf (base : Nat) (c : Char) : Bool := digitValue c < base

/-- Digits with single underscores between them. -/
def grouped (base : Nat) : List Char → Bool
  | [] => false
  | [c] => isDigitOf base c
  | c :: '_' :: rest => isDigitOf base c && grouped base rest
  | c :: rest => isDigitOf base c && grouped base rest

def numeral (base : Nat) (cs : List Char) : Nat :=
  (cs.filter fun c => c ≠ '_').foldl (fun n c => base * n + digitValue c) 0

def isPlainDecimal (cs : List Char) : Bool :=
  grouped 10 cs && (cs.length == 1 || cs.head? != some '0')

/-- Every underscore behind the first character stands between two digits of some base. -/
def separated : List Char → Bool
  | a :: '_' :: b :: rest => isDigitOf 16 a && isDigitOf 16 b && separated (b :: rest)
  | [_, '_'] => false
  | _ :: rest => separated rest
  | [] => true

def based? (base : Nat) (ds : List Char) : Option (Option Nat) :=
  if ds.isEmpty then some none
  else if grouped base ds then some (some (numeral base ds))
  else none

/-- A decimal integer without its sign. Behind its first underscore it has to be neither
a float nor broken by a space, and only the characters beside underscores have to be
digits. -/
def decimal? (cs : List Char) : Option (Option Nat) :=
  let whole := cs.takeWhile isDecimal
  let rest := cs.dropWhile isDecimal
  if whole.isEmpty || (cs.length ≠ 1 && whole.head? == some '0') then none
  else if rest.isEmpty then some (some (numeral 10 whole))
  else if rest.head? == some '_' && rest.all (fun c => !(" .eE".contains c)) &&
      separated cs then
    some (if rest.all (fun c => isDecimal c || c = '_') then some (numeral 10 cs) else none)
  else none

def unsign : List Char → Bool × List Char
  | '-' :: cs => (true, cs)
  | '+' :: cs => (false, cs)
  | cs => (false, cs)

/-- The value of an integer's digits, itself none when they have no value. -/
def integer? (cs : List Char) : Option (Option Int) :=
  let (negative, digits) := unsign cs
  let size := match cs with
    | '0' :: 'x' :: ds => based? 16 ds
    | '0' :: 'o' :: ds => based? 8 ds
    | '0' :: 'b' :: ds => based? 2 ds
    | _ => decimal? digits
  size.map fun n => n.map fun n => if negative then -(n : Int) else n

/-- The exponent behind `e`, if what follows the digits is one. -/
def exponent? : List Char → Option Int
  | [] => some 0
  | e :: cs =>
    let (negative, ds) := unsign cs
    if (e = 'e' || e = 'E') && grouped 10 ds then
      some (if negative then -(numeral 10 ds : Int) else numeral 10 ds)
    else none

/-- `digits · 10^e` as a double; none when it is too large for one. -/
def scaled? (digits : Nat) (e : Int) : Option Float :=
  let leading := (Nat.toDigits 10 digits).length + e
  if digits = 0 || leading < -400 then some 0
  else if 400 < leading then none
  else
    let x := Float.ofScientific digits (e < 0) e.natAbs
    if x.isFinite then some x else none

def decimalFloat? (cs : List Char) : Option (Option Float) :=
  let isNumeral (c : Char) := isDecimal c || c = '_'
  let whole := cs.takeWhile isNumeral
  if !isPlainDecimal whole then none
  else
    match cs.dropWhile isNumeral with
    | '.' :: rest =>
      let fraction := rest.takeWhile isNumeral
      let places := (fraction.filter isDecimal).length
      if !grouped 10 fraction then none
      else (exponent? (rest.dropWhile isNumeral)).map fun e =>
        scaled? (numeral 10 (whole ++ fraction)) (e - places)
    | [] => none
    | rest => (exponent? rest).map (scaled? (numeral 10 whole))

def float? (cs : List Char) : Option (Option Float) :=
  let (negative, body) := unsign cs
  let x :=
    if body = ['i', 'n', 'f'] then some (some (1 / 0))
    else if body = ['n', 'a', 'n'] then some (some (0 / 0))
    else decimalFloat? body
  x.map fun x => if negative then x.map (- ·) else x

def fixedDigits (n : Nat) (cs : List Char) : Option (Nat × List Char) :=
  let ds := cs.take n
  if ds.length = n && ds.all isDecimal then some (numeral 10 ds, cs.drop n) else none

def daysIn (year month : Nat) : Nat :=
  if month = 2 then
    if year % 4 = 0 && (year % 100 ≠ 0 || year % 400 = 0) then 29 else 28
  else if month = 4 || month = 6 || month = 9 || month = 11 then 30
  else 31

def afterDate (cs : List Char) : Option (List Char) := do
  let (year, cs) ← fixedDigits 4 cs
  let '-' :: cs := cs | none
  let (month, cs) ← fixedDigits 2 cs
  let '-' :: cs := cs | none
  let (day, cs) ← fixedDigits 2 cs
  guard (1 ≤ month && month ≤ 12 && 1 ≤ day && day ≤ daysIn year month)
  return cs

def afterHourMinute (cs : List Char) : Option (List Char) := do
  let (hour, cs) ← fixedDigits 2 cs
  let ':' :: cs := cs | none
  let (minute, cs) ← fixedDigits 2 cs
  guard (hour ≤ 23 && minute ≤ 59)
  return cs

def afterFraction : List Char → Option (List Char)
  | '.' :: cs => if (cs.takeWhile isDecimal).isEmpty then none else some (cs.dropWhile isDecimal)
  | cs => some cs

/-- What follows a leading time of day; its seconds may be left out. -/
def afterTime (cs : List Char) : Option (List Char) := do
  match ← afterHourMinute cs with
  | ':' :: cs =>
    let (second, cs) ← fixedDigits 2 cs
    guard (second ≤ 60)
    afterFraction cs
  | cs => return cs

def isOffset : List Char → Bool
  | [] => true
  | [c] => c = 'Z' || c = 'z'
  | c :: cs => (c = '+' || c = '-') && afterHourMinute cs == some []

def isTime (cs : List Char) : Bool :=
  match afterDate cs with
  | some [] => true
  | some (c :: rest) => (c = 'T' || c = 't' || c = ' ') && (afterTime rest).any isOffset
  | none => afterTime cs == some []

def scalar? (cs : List Char) : Option Scalar :=
  if cs = ['t', 'r', 'u', 'e'] then some (.boolean true)
  else if cs = ['f', 'a', 'l', 's', 'e'] then some (.boolean false)
  else
    match integer? cs with
    | some n => some (.integer n)
    | none =>
      match float? cs with
      | some x => some (.float x)
      | none => if isTime cs then some (.time (String.ofList cs)) else none

/-- Integers are read as words of 128 bits, signed or unsigned, and floats as doubles. -/
def Scalar.isReadable : Scalar → Bool
  | integer n => n.any fun n =>
    -0x80000000000000000000000000000000 ≤ n && n ≤ 0xffffffffffffffffffffffffffffffff
  | float x => x.isSome
  | _ => true

end IndexedStore.Toml
