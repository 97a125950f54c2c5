import Cabinet.Toml.Expression
/-!
# Documents

A document is lines: headers, keys with their values, and comments. A header with two brackets opens a
further table of an array each time it comes. A mark of the byte order at the start is dropped.
-/

namespace Cabinet.Toml

/-- What the lines so far have made. -/
structure Document where
  /-- The entries of the outermost table. -/
  root : Entries := []
  /-- The table that is open. -/
  current : List String := []

namespace Document

/-- Reads a header behind its brackets. -/
def header (closing : List Char) : Scanner (List String × String) := fun cs => do
  let (k, cs) ← key cs
  let cs ← closing.foldlM (fun cs c => expect c cs) cs
  return (k, ← lineEnd? cs)

/-- Reads a line that is not empty. -/
def line (d : Document) (cs : List Char) : Option (Document × List Char) :=
  match cs with
  | '[' :: '[' :: cs => do
    let ((path, k), rest) ← header [']', ']'] cs
    return ({ root := ← openItem path k d.root, current := path ++ [k] }, rest)
  | '[' :: cs => do
    let ((path, k), rest) ← header [']'] cs
    return ({ root := ← openTable path k d.root, current := path ++ [k] }, rest)
  | cs => do
    let ((path, k), rest) ← key cs
    let rest ← expect '=' rest
    let (v, rest) ← value (nestingBound - 1) (skipBlanks rest)
    let rest ← lineEnd? rest
    return ({ d with root := ← within d.current (assign path k v) d.root }, rest)

/-- Reads the lines from a text on. -/
def lines (d : Document) (cs : List Char) : Option Entries :=
  match skipTrivia cs with
  | [] => some d.root
  | '#' :: rest => if (rest.dropWhile isPrintable).isEmpty then some d.root else none
  | start => do
    let (d, rest) ← d.line start
    if rest.length < cs.length then lines d rest else none
termination_by cs.length

end Document

/-- Reads a configuration text. -/
def parse (text : String) : Option Entries :=
  match text.toList with
  | '\uFEFF' :: cs => Document.lines {} cs
  | cs => Document.lines {} cs

end Cabinet.Toml
