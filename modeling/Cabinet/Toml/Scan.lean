/-!
# Scanning

A scanner reads something at the front of a text and gives it with the text behind it; it gives nothing
if the front is something else. Here are the parts without a meaning of their own: blanks, ends of
lines and comments, and runs of digits.
-/

namespace Cabinet.Toml

/-- What reads an `α` at the front of a text. -/
abbrev Scanner (α : Type) := List Char → Option (α × List Char)

/-- A blank within a line. -/
def isBlank (c : Char) : Bool := c == ' ' || c == '\t'

/-- A character that a comment may hold: no control character but the tabulator. -/
def isPrintable (c : Char) : Bool := c == '\t' || (' ' ≤ c && c.toNat != 0x7F)

/-- The text without the blanks in front. -/
def skipBlanks (cs : List Char) : List Char := cs.dropWhile isBlank

/-- The text behind an end of line. -/
def newline? : List Char → Option (List Char)
  | '\n' :: cs => some cs
  | '\r' :: '\n' :: cs => some cs
  | _ => none

/-- The text behind the comment in front, if there is one. -/
def skipComment : List Char → List Char
  | '#' :: cs => cs.dropWhile isPrintable
  | cs => cs

/-- The text behind the rest of a line that may hold a comment only. -/
def lineEnd? (cs : List Char) : Option (List Char) :=
  match skipComment (skipBlanks cs) with
  | [] => some []
  | rest => newline? rest

theorem length_dropWhile_le (p : Char → Bool) (cs : List Char) :
    (cs.dropWhile p).length ≤ cs.length :=
  (List.dropWhile_sublist p).length_le

theorem length_newline?_lt {cs rest : List Char} (h : newline? cs = some rest) :
    rest.length < cs.length := by
  unfold newline? at h
  split at h
  · obtain rfl := Option.some.inj h
    exact Nat.lt_succ_self _
  · obtain rfl := Option.some.inj h
    exact Nat.lt_succ_of_lt (Nat.lt_succ_self _)
  · contradiction

theorem length_skipComment_le (cs : List Char) : (skipComment cs).length ≤ cs.length := by
  unfold skipComment
  split
  · exact Nat.le_succ_of_le (length_dropWhile_le _ _)
  · exact Nat.le_refl _

/-- The text behind blanks, ends of lines and whole comment lines. -/
def skipTrivia (cs : List Char) : List Char :=
  match _h : newline? (skipComment (skipBlanks cs)) with
  | some rest => skipTrivia rest
  | none => skipBlanks cs
termination_by cs.length
decreasing_by
  have h₁ := length_newline?_lt _h
  have h₂ := length_skipComment_le (skipBlanks cs)
  have h₃ := length_dropWhile_le isBlank cs
  unfold skipBlanks at h₂ h₁
  omega

/-! ### Digits -/

/-- A decimal digit. -/
def isDecimal (c : Char) : Bool := '0' ≤ c && c ≤ '9'

/-- The value of a letter or figure as a digit. -/
def digitValue (c : Char) : Nat :=
  if c ≤ '9' then c.toNat - 48 else if c ≤ 'Z' then c.toNat - 55 else c.toNat - 87

/-- A hexadecimal digit. -/
def isHexadecimal (c : Char) : Bool :=
  isDecimal c || ('a' ≤ c && c ≤ 'f') || ('A' ≤ c && c ≤ 'F')

/-- The number that digits stand for. -/
def numberOf (base : Nat) (digits : List Char) : Nat :=
  digits.foldl (fun n c => n * base + digitValue c) 0

/-- Reads the digits that follow a digit, any of them behind an underscore. -/
def moreDigits (isDigit : Char → Bool) : Scanner (List Char)
  | '_' :: c :: cs =>
    if isDigit c then (moreDigits isDigit cs).map fun (ds, r) => (c :: ds, r) else none
  | ['_'] => none
  | c :: cs =>
    if isDigit c then (moreDigits isDigit cs).map fun (ds, r) => (c :: ds, r) else some ([], c :: cs)
  | [] => some ([], [])

/-- Reads at least one digit. -/
def digits (isDigit : Char → Bool) : Scanner (List Char)
  | c :: cs => if isDigit c then (moreDigits isDigit cs).map fun (ds, r) => (c :: ds, r) else none
  | [] => none

/-- Reads exactly `n` digits. -/
def exactDigits (isDigit : Char → Bool) (n : Nat) : Scanner (List Char) := fun cs =>
  let ds := cs.take n
  if ds.length = n ∧ ds.all isDigit then some (ds, cs.drop n) else none

end Cabinet.Toml
