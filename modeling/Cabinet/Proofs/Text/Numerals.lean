import Cabinet.Text.Blank
import Cabinet.Text.Numeral
import Mathlib.Data.List.DropRight
import Mathlib.Data.List.Forall2
import Mathlib.Data.Nat.Digits.Defs
import Mathlib.Tactic.Ring
/-!
# Numerals and trimmed texts

A numeral is an optional plus sign before digits, at least one, the highest first
(`Numeral.Written`). Reading goes from left to right and stops early where a digit takes the value past
the limit; since no later digit makes the value smaller again, what is read are exactly the numerals up
to the limit, with any number of leading zeros (`Numeral.read_eq_ok_iff`). Trimming takes off all blanks at
both ends and nothing else (`trim_eq_iff`).
-/

namespace Cabinet.Text

namespace Numeral

/-! ### Digits -/

/-- The figures, the letters among them small. -/
def smallFigures : List Char :=
  ['0', '1', '2', '3', '4', '5', '6', '7', '8', '9', 'a', 'b', 'c', 'd', 'e', 'f']

/-- The figures, the letters among them capital. -/
def capitalFigures : List Char :=
  ['0', '1', '2', '3', '4', '5', '6', '7', '8', '9', 'A', 'B', 'C', 'D', 'E', 'F']

/-- The character is the digit of a base, at most sixteen, with the given value. -/
def IsDigit (base : Nat) (c : Char) (d : Nat) : Prop :=
  d < base ∧ (smallFigures[d]? = some c ∨ capitalFigures[d]? = some c)

/-- The characters are digits that denote the number, the highest first. -/
def Denote (base : Nat) (cs : List Char) (n : Nat) : Prop :=
  ∃ ds, List.Forall₂ (IsDigit base) cs ds ∧ Nat.ofDigits base ds.reverse = n

/-- The characters are a numeral for the number: digits, at least one, behind a plus sign or not. -/
def Written (base : Nat) (cs : List Char) (n : Nat) : Prop :=
  ∃ digits, digits ≠ [] ∧ Denote base digits n ∧ (cs = digits ∨ cs = '+' :: digits)

variable {base limit v n d : Nat} {c : Char} {cs : List Char}

theorem digit?_eq_some_iff_of_le (hb : base ≤ 16) :
    digit? base c = some d ↔ digit? 16 c = some d ∧ d < base := by
  simp only [digit?, Option.filter_eq_some_iff, decide_eq_true_eq]
  grind

/-- There are no digits but the figures. -/
theorem figure_of_digit? (h : digit? 16 c = some d) :
    smallFigures[d]? = some c ∨ capitalFigures[d]? = some c := by
  have all : ∀ n < 128, ∀ d < 16, digit? 16 (Char.ofNat n) = some d →
      smallFigures[d]? = some (Char.ofNat n) ∨ capitalFigures[d]? = some (Char.ofNat n) := by
    decide +kernel
  have bounds : c.toNat < 128 ∧ d < 16 := by
    simp only [digit?, Option.filter_eq_some_iff, decide_eq_true_eq] at h
    grind
  have found := all c.toNat bounds.1 d bounds.2
  rw [Char.ofNat_toNat] at found
  exact found h

theorem digit?_of_figure (hd : d < 16)
    (h : smallFigures[d]? = some c ∨ capitalFigures[d]? = some c) : digit? 16 c = some d := by
  have small : ∀ d < 16, smallFigures[d]?.bind (digit? 16) = some d := by decide
  have capital : ∀ d < 16, capitalFigures[d]?.bind (digit? 16) = some d := by decide
  rcases h with h | h
  · have value := small d hd
    rwa [h] at value
  · have value := capital d hd
    rwa [h] at value

theorem digit?_eq_some_iff (hb : base ≤ 16) : digit? base c = some d ↔ IsDigit base c d := by
  rw [digit?_eq_some_iff_of_le hb, IsDigit, and_comm]
  refine and_congr_right fun hd => ?_
  exact ⟨figure_of_digit?, digit?_of_figure (by omega)⟩

theorem not_isDigit_plus (hb : base ≤ 16) : ¬IsDigit base '+' d := by
  rw [← digit?_eq_some_iff hb]
  simp [digit?]

/-! ### Reading -/

/-- The value of digits goes on from that of the first ones. -/
theorem exists_digits_cons_iff : (∃ ds, List.Forall₂ (IsDigit base) (c :: cs) ds ∧
      n = v * base ^ (c :: cs).length + Nat.ofDigits base ds.reverse) ↔
    ∃ d, IsDigit base c d ∧ ∃ ds, List.Forall₂ (IsDigit base) cs ds ∧
      n = (v * base + d) * base ^ cs.length + Nat.ofDigits base ds.reverse := by
  have value (d : Nat) {ds : List Nat} (h : List.Forall₂ (IsDigit base) cs ds) :
      v * base ^ (c :: cs).length + Nat.ofDigits base (d :: ds).reverse =
        (v * base + d) * base ^ cs.length + Nat.ofDigits base ds.reverse := by
    rw [Nat.ofDigits_reverse_cons, List.length_cons, h.length_eq]
    ring
  constructor
  · rintro ⟨_, h, rfl⟩
    cases h with
    | cons hd hds => exact ⟨_, hd, _, hds, value _ hds⟩
  · rintro ⟨d, hd, ds, hds, rfl⟩
    exact ⟨d :: ds, .cons hd hds, (value d hds).symm⟩

/-- **Reading digits** goes to the end exactly if their value stays within the limit. -/
theorem readDigits_eq_ok_iff (hb : base ≤ 16) (pos : 0 < base) (hv : v ≤ limit) :
    readDigits base limit v cs = .ok n ↔ n ≤ limit ∧ ∃ ds, List.Forall₂ (IsDigit base) cs ds ∧
      n = v * base ^ cs.length + Nat.ofDigits base ds.reverse := by
  induction cs generalizing v with
  | nil =>
    rw [readDigits, Except.ok.injEq]
    constructor
    · rintro rfl
      exact ⟨hv, [], .nil, by simp⟩
    · rintro ⟨-, _, h, rfl⟩
      cases h
      simp
  | cons c cs ih =>
    rw [exists_digits_cons_iff, readDigits]
    cases hd : digit? base c with
    | none =>
      refine iff_of_false (by simp) ?_
      rintro ⟨-, d, isDigit, -⟩
      rw [(digit?_eq_some_iff hb).2 isDigit] at hd
      cases hd
    | some d =>
      have unique : ∀ d', IsDigit base c d' → d' = d := by
        intro d' isDigit
        rw [(digit?_eq_some_iff hb).2 isDigit, Option.some.injEq] at hd
        exact hd
      by_cases within : v * base + d ≤ limit
      · simp only [if_pos within, ih within]
        refine and_congr_right fun _ => ?_
        constructor
        · exact fun rest => ⟨d, (digit?_eq_some_iff hb).1 hd, rest⟩
        · rintro ⟨d', isDigit, rest⟩
          rwa [unique d' isDigit] at rest
      · -- The digits that follow make the value no smaller.
        simp only [if_neg within]
        refine iff_of_false (by simp) ?_
        rintro ⟨le, d', isDigit, ds, -, rfl⟩
        rw [unique d' isDigit] at le
        have grows : v * base + d ≤ (v * base + d) * base ^ cs.length :=
          Nat.le_mul_of_pos_right _ (Nat.pow_pos pos)
        omega

theorem readDigits_zero_eq_ok_iff (hb : base ≤ 16) (pos : 0 < base) :
    readDigits base limit 0 cs = .ok n ↔ n ≤ limit ∧ Denote base cs n := by
  rw [readDigits_eq_ok_iff hb pos (Nat.zero_le _), Denote]
  simp only [Nat.zero_mul, Nat.zero_add, eq_comm]

/-- **What is read is a numeral within the limit**, with or without a sign and leading zeros. -/
theorem read_eq_ok_iff (hb : base ≤ 16) (pos : 0 < base) :
    read base limit cs = .ok n ↔ n ≤ limit ∧ Written base cs n := by
  have plus {digits : List Char} : ¬Denote base ('+' :: digits) n := by
    rintro ⟨_, h, -⟩
    cases h with
    | cons hd _ => exact not_isDigit_plus hb hd
  unfold read
  split
  · refine iff_of_false (by simp) ?_
    rintro ⟨-, digits, ne, -, rfl | h⟩
    · exact ne rfl
    · cases h
  · refine iff_of_false (by simp) ?_
    rintro ⟨-, digits, ne, denote, rfl | h⟩
    · exact plus denote
    · cases h
      exact ne rfl
  · next cs ne =>
    rw [readDigits_zero_eq_ok_iff hb pos]
    refine and_congr_right fun _ => ?_
    constructor
    · exact fun denote => ⟨cs, fun h => ne (h ▸ rfl), denote, .inr rfl⟩
    · rintro ⟨digits, -, denote, rfl | h⟩
      · exact absurd denote plus
      · cases h
        exact denote
  · next ne _ unsigned =>
    rw [readDigits_zero_eq_ok_iff hb pos]
    refine and_congr_right fun _ => ?_
    constructor
    · exact fun denote => ⟨_, ne, denote, .inl rfl⟩
    · rintro ⟨digits, -, denote, rfl | rfl⟩
      · exact denote
      · exact absurd rfl (unsigned digits)

end Numeral

/-! ### Trimming -/

/-- The text is the core with blanks on either side; the core neither begins nor ends with a blank. -/
def Trimmed (text core : List Char) : Prop :=
  ∃ front back, text = front ++ core ++ back ∧ (∀ c ∈ front ++ back, isBlank c = true) ∧
    (∀ c ∈ core.head?, isBlank c = false) ∧ ∀ c ∈ core.getLast?, isBlank c = false

theorem trimmed_trim (text : List Char) : Trimmed text (trim text) := by
  have start : text.takeWhile isBlank ++ trimStart text = text := List.takeWhile_append_dropWhile
  have stop : trim text ++ ((trimStart text).reverse.takeWhile isBlank).reverse = trimStart text := by
    rw [trim, trimEnd, ← List.reverse_append, List.takeWhile_append_dropWhile, List.reverse_reverse]
  refine ⟨text.takeWhile isBlank, ((trimStart text).reverse.takeWhile isBlank).reverse, ?_, ?_, ?_, ?_⟩
  · rw [List.append_assoc, stop, start]
  · intro c hc
    rcases List.mem_append.1 hc with hc | hc
    · exact List.mem_takeWhile_imp hc
    · exact List.mem_takeWhile_imp (List.mem_reverse.1 hc)
  · intro c hc
    have first : (trimStart text).head? = some c := by
      rw [← stop, List.head?_append, Option.mem_def.1 hc]
      rfl
    have kept := List.head?_dropWhile_not isBlank text
    rw [trimStart] at first
    rwa [first] at kept
  · intro c hc
    obtain ⟨ne, rfl⟩ := List.mem_getLast?_eq_getLast hc
    have kept := List.rdropWhile_last_not isBlank (trimStart text) ne
    exact Bool.eq_false_iff.2 kept

/-- **Trimming takes the blanks off both ends.** -/
theorem trim_eq_iff {text core : List Char} : trim text = core ↔ Trimmed text core := by
  constructor
  · rintro rfl
    exact trimmed_trim text
  · rintro ⟨front, back, rfl, blank, first, last⟩
    have blankFront : ∀ c ∈ front, isBlank c = true := fun c hc => blank c (List.mem_append_left _ hc)
    have blankBack : ∀ c ∈ back.reverse, isBlank c = true := fun c hc =>
      blank c (List.mem_append_right _ (List.mem_reverse.1 hc))
    rw [trim, trimStart, List.append_assoc, List.dropWhile_append_of_pos blankFront]
    cases core with
    | nil =>
      have nothing : ([] ++ back).dropWhile isBlank = [] :=
        List.dropWhile_eq_nil_iff.2 fun c hc => blank c (List.mem_append_right _ hc)
      rw [nothing]
      rfl
    | cons c cs =>
      have headKept : ¬isBlank c = true := Bool.eq_false_iff.1 (first c rfl)
      have lastKept : (c :: cs).rdropWhile isBlank = c :: cs :=
        List.rdropWhile_eq_self_iff.2 fun ne =>
          Bool.eq_false_iff.1 (last _ (List.getLast?_eq_some_getLast ne))
      rw [List.cons_append, List.dropWhile_cons_of_neg headKept, ← List.cons_append, trimEnd,
        List.reverse_append, List.dropWhile_append_of_pos blankBack]
      exact lastKept

end Cabinet.Text
