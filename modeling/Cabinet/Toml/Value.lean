import Cabinet.Number.Binary
/-!
# Values of a configuration text

A configuration text is a table of values under keys. A table also remembers how it was made, since
that decides whether later lines may add to it: a table under a header of its own is complete, one that
only comes in the headers of others may still get its own, and one made by a dotted key takes further
dotted keys.
-/

namespace Cabinet.Toml

/-- How a table was made. -/
inductive Origin where
  /-- In braces. -/
  | inline
  /-- By a header of its own. -/
  | header
  /-- On the way to a header. -/
  | implied
  /-- On the way to a key. -/
  | dotted
deriving DecidableEq, Inhabited

/-- A value. -/
inductive Value where
  | boolean (b : Bool)
  | integer (n : Int)
  | float (x : Double)
  | text (s : String)
  /-- A date, a time of day, or both; what it says plays no part. -/
  | moment
  | array (items : List Value)
  | table (origin : Origin) (entries : List (String × Value))
  /-- Tables under one header, which comes once for each. -/
  | tables (items : List (List (String × Value)))
deriving Inhabited

/-- Values under their keys. -/
abbrev Entries := List (String × Value)

end Cabinet.Toml
