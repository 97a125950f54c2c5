import Cabinet.Toml.Moment
import Cabinet.Toml.Number
import Cabinet.Toml.Quoted
import Cabinet.Toml.Table
/-!
# Keys and values

A key is a row of names between points. A value is a word, a number, a moment, a text, an array or a
table in braces. Arrays and tables in braces lie within each other to a fixed depth at most.
-/

namespace Cabinet.Toml

/-- A key has fewer parts than this, and values lie within each other to a lesser depth. -/
def nestingBound : Nat := 80

/-- A character of a name without quotes. -/
def isBare (c : Char) : Bool :=
  isDecimal c || ('a' ≤ c && c ≤ 'z') || ('A' ≤ c && c ≤ 'Z') || c == '_' || c == '-'

/-- Reads a part of a key. -/
def keyPart : Scanner String := fun cs =>
  match cs with
  | '\x22' :: cs => (basicRest cs).map fun (s, r) => (String.ofList s, r)
  | '\x27' :: cs => (literalRest cs).map fun (s, r) => (String.ofList s, r)
  | cs =>
    let s := cs.takeWhile isBare
    if s.isEmpty then none else some (String.ofList s, cs.dropWhile isBare)

/-- Reads at most `n` parts of a key with points between them. -/
def keyParts : Nat → Scanner (List String)
  | 0, _ => none
  | n + 1, cs => do
    let (part, cs) ← keyPart (skipBlanks cs)
    match skipBlanks cs with
    | '.' :: cs =>
      let (parts, cs) ← keyParts n cs
      return (part :: parts, cs)
    | cs => return ([part], cs)

/-- Reads a key: the parts on the way, and the last one. -/
def key : Scanner (List String × String) := fun cs => do
  let (parts, cs) ← keyParts (nestingBound - 1) cs
  return ((parts.dropLast, parts.getLastD ""), cs)

/-- Reads a value without others in it. -/
def scalar : Scanner Value := fun cs =>
  match cs with
  | 't' :: 'r' :: 'u' :: 'e' :: cs => some (.boolean true, cs)
  | 'f' :: 'a' :: 'l' :: 's' :: 'e' :: cs => some (.boolean false, cs)
  | '\x22' :: _ | '\x27' :: _ => (quoted cs).map fun (s, r) => (.text (String.ofList s), r)
  | cs =>
    match moment cs with
    | some cs => some (.moment, cs)
    | none => number cs

/-- Reads the rest of an array, whose items `item` reads. -/
def arrayRest (item : Scanner Value) (cs : List Char) : Option (List Value × List Char) :=
  match skipTrivia cs with
  | ']' :: rest => some ([], rest)
  | start => do
    let (v, rest) ← item start
    match skipTrivia rest with
    | ']' :: rest => return ([v], rest)
    | ',' :: rest =>
      if rest.length < cs.length then
        let (vs, rest) ← arrayRest item rest
        return (v :: vs, rest)
      else none
    | _ => none
termination_by cs.length

/-- Reads the rest of a table in braces, of which some entries have been read. -/
def inlineRest (item : Scanner Value) (es : Entries) (cs : List Char) :
    Option (Entries × List Char) := do
  let ((path, k), rest) ← key cs
  let rest ← expect '=' rest
  let (v, rest) ← item (skipBlanks rest)
  let es ← assign path k v es
  match skipBlanks rest with
  | '}' :: rest => return (es, rest)
  | ',' :: rest => if rest.length < cs.length then inlineRest item es rest else none
  | _ => none
termination_by cs.length

/-- Reads a value; others lie in it to a depth less than `depth`. -/
def value : Nat → Scanner Value
  | depth, '[' :: cs =>
    match depth with
    | 0 => none
    | depth + 1 => (arrayRest (value depth) cs).map fun (vs, r) => (.array vs, r)
  | depth, '{' :: cs =>
    match depth with
    | 0 => none
    | depth + 1 =>
      match skipBlanks cs with
      | '}' :: rest => some (.table .inline [], rest)
      | start => (inlineRest (value depth) [] start).map fun (es, r) => (.table .inline es, r)
  | _, cs => scalar cs

end Cabinet.Toml
