import Cabinet.Toml.Value
/-!
# Building tables

A document is built line by line: a header opens a table, and a key, which may have several parts,
takes a value in the table that is open. A key takes only one value, a table gets only one header, and
dotted keys add to no table that is complete already.
-/

namespace Cabinet.Toml

/-- The entries with another value under a key that is there. -/
def replace (key : String) (v : Value) (es : Entries) : Entries :=
  es.map fun e => if e.1 == key then (key, v) else e

/-- Adds a value under a new key. -/
def add (key : String) (v : Value) (es : Entries) : Option Entries :=
  if (es.lookup key).isSome then none else some (es ++ [(key, v)])

/-- All items with another last one. -/
def replaceLast (items : List Entries) (last : Entries) : List Entries := items.dropLast ++ [last]

/-- Gives a key its value. The tables on the way are made where there are none; the last of them has to
be one that dotted keys made. -/
def assign (path : List String) (key : String) (v : Value) (es : Entries) : Option Entries :=
  match path with
  | [] => add key v es
  | p :: rest =>
    match es.lookup p with
    | none => do return es ++ [(p, .table .dotted (← assign rest key v []))]
    | some (.table .dotted sub) => do return replace p (.table .dotted (← assign rest key v sub)) es
    | some (.table .implied sub) =>
      if rest.isEmpty then none
      else do return replace p (.table .implied (← assign rest key v sub)) es
    | some (.tables items) =>
      if rest.isEmpty then none
      else do
        let last ← assign rest key v (items.getLastD [])
        return replace p (.tables (replaceLast items last)) es
    | some _ => none

/-- Changes the entries of the table that a header names, the last one of tables under one header. On
the way, tables are made where there are none. -/
def within (path : List String) (change : Entries → Option Entries) (es : Entries) : Option Entries :=
  match path with
  | [] => change es
  | p :: rest =>
    match es.lookup p with
    | none => do return es ++ [(p, .table .implied (← within rest change []))]
    | some (.table .inline _) => none
    | some (.table origin sub) => do return replace p (.table origin (← within rest change sub)) es
    | some (.tables items) => do
      let last ← within rest change (items.getLastD [])
      return replace p (.tables (replaceLast items last)) es
    | some _ => none

/-- Opens the table of a header. -/
def openTable (path : List String) (key : String) (es : Entries) : Option Entries :=
  within path (fun es =>
    match es.lookup key with
    | none => some (es ++ [(key, .table .header [])])
    | some (.table .implied sub) => some (replace key (.table .header sub) es)
    | some _ => none) es

/-- Opens a further table under a header that comes once for each. -/
def openItem (path : List String) (key : String) (es : Entries) : Option Entries :=
  within path (fun es =>
    match es.lookup key with
    | none => some (es ++ [(key, .tables [[]])])
    | some (.tables items) => some (replace key (.tables (items ++ [[]])) es)
    | some _ => none) es

end Cabinet.Toml
