import Cabinet.Toml.Scan
/-!
# Quoted texts

A text in double quotes holds escapes, one in single quotes does not; in three quotes either may go on
over lines. A backslash at the end of a line drops the end of line and all blanks and ends of lines
behind it.
-/

namespace Cabinet.Toml

/-- The character of a code, if there is one. -/
def charOf? (digits : List Char) : Option Char :=
  let n := numberOf 16 digits
  if digits.all isHexadecimal ∧ n.isValidChar then some (Char.ofNat n) else none

/-- The character that a letter behind a backslash stands for. -/
def escape? : Char → Option Char
  | 'b' => some '\x08'
  | 'f' => some '\x0c'
  | 'n' => some '\n'
  | 'r' => some '\r'
  | 't' => some '\t'
  | '\\' => some '\\'
  | '\x22' => some '\x22'
  | _ => none

/-- Puts a character in front of what is read. -/
def consed (c : Char) (r : Option (List Char × List Char)) : Option (List Char × List Char) :=
  r.map fun (s, rest) => (c :: s, rest)

/-- Reads the rest of a text in double quotes. -/
def basicRest : Scanner (List Char)
  | '\x22' :: cs => some ([], cs)
  | '\\' :: 'u' :: a :: b :: c :: d :: cs => do consed (← charOf? [a, b, c, d]) (basicRest cs)
  | '\\' :: 'U' :: a :: b :: c :: d :: e :: f :: g :: h :: cs => do
    consed (← charOf? [a, b, c, d, e, f, g, h]) (basicRest cs)
  | '\\' :: c :: cs => do consed (← escape? c) (basicRest cs)
  | c :: cs => if isPrintable c then consed c (basicRest cs) else none
  | [] => none

/-- Reads the rest of a text in single quotes. -/
def literalRest : Scanner (List Char)
  | '\x27' :: cs => some ([], cs)
  | c :: cs => if isPrintable c then consed c (literalRest cs) else none
  | [] => none

/-- A backslash stands at the end of a line. -/
def endsLine (cs : List Char) : Bool := (newline? (skipBlanks cs)).isSome

/-- Reads the rest of a text in three double quotes; `skipping` drops blanks and ends of lines. -/
def basicLines (skipping : Bool) : Scanner (List Char)
  | '\x22' :: '\x22' :: '\x22' :: '\x22' :: '\x22' :: cs => some (['\x22', '\x22'], cs)
  | '\x22' :: '\x22' :: '\x22' :: '\x22' :: cs => some (['\x22'], cs)
  | '\x22' :: '\x22' :: '\x22' :: cs => some ([], cs)
  | '\r' :: '\n' :: cs =>
    if skipping then basicLines true cs else consed '\n' (basicLines false cs)
  | '\n' :: cs => if skipping then basicLines true cs else consed '\n' (basicLines false cs)
  | '\\' :: 'u' :: a :: b :: c :: d :: cs => do consed (← charOf? [a, b, c, d]) (basicLines false cs)
  | '\\' :: 'U' :: a :: b :: c :: d :: e :: f :: g :: h :: cs => do
    consed (← charOf? [a, b, c, d, e, f, g, h]) (basicLines false cs)
  | '\\' :: c :: cs =>
    if endsLine (c :: cs) then basicLines true (c :: cs)
    else do consed (← escape? c) (basicLines false cs)
  | c :: cs =>
    if skipping && isBlank c then basicLines true cs
    else if isPrintable c then consed c (basicLines false cs)
    else none
  | [] => none

/-- Reads the rest of a text in three single quotes. -/
def literalLines : Scanner (List Char)
  | '\x27' :: '\x27' :: '\x27' :: '\x27' :: '\x27' :: cs => some (['\x27', '\x27'], cs)
  | '\x27' :: '\x27' :: '\x27' :: '\x27' :: cs => some (['\x27'], cs)
  | '\x27' :: '\x27' :: '\x27' :: cs => some ([], cs)
  | '\r' :: '\n' :: cs => consed '\n' (literalLines cs)
  | '\n' :: cs => consed '\n' (literalLines cs)
  | c :: cs => if isPrintable c then consed c (literalLines cs) else none
  | [] => none

/-- The text behind an end of line, or all of it. -/
def dropNewline (cs : List Char) : List Char := (newline? cs).getD cs

/-- Reads a text in one or three quotes. -/
def quoted : Scanner (List Char)
  | '\x22' :: '\x22' :: '\x22' :: cs => basicLines false (dropNewline cs)
  | '\x27' :: '\x27' :: '\x27' :: cs => literalLines (dropNewline cs)
  | '\x22' :: cs => basicRest cs
  | '\x27' :: cs => literalRest cs
  | _ => none

end Cabinet.Toml
