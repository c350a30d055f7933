/-! # Configuration documents

The statements of a configuration document: table headers, and assignments of values
to dotted keys.
-/

namespace IndexedStore.Toml

inductive Scalar where
  | string (s : String)
  /-- None for digits that make no number. -/
  | integer (n : Option Int)
  /-- None for digits that are too large for a double. -/
  | float (x : Option Float)
  | boolean (b : Bool)
  /-- A date, a time of day or both, as written. -/
  | time (text : String)

abbrev KeyPath := List String

inductive Expr where
  | scalar (s : Scalar)
  | array (items : List Expr)
  | inline (entries : List (KeyPath × Expr))

inductive Statement where
  /-- `[path]`: the assignments that follow belong to this table. -/
  | table (path : KeyPath)
  /-- `[[path]]`: a new table at the end of a list of tables. -/
  | element (path : KeyPath)
  | assign (path : KeyPath) (value : Expr)

end IndexedStore.Toml
