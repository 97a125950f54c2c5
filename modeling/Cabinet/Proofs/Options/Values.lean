import Cabinet.Options.Value
import Cabinet.Proofs.Outcome
import Cabinet.Proofs.Text.Numerals
/-!
# Texts that are values

Which texts are read as a byte, as the three switches and as a change of the buttons, and as which
(`Value.byte_eq_ok_iff`, `Value.dips_eq_ok_iff`, `Value.inputEvent_eq_ok_iff`). Each is told by a grammar
over the whole text: what is trimmed off, how the text is divided, and which numerals its parts are. Every
other text is refused, the switches for the first part that is no byte before the number of the parts
(`Value.dips_eq_error_iff`). All of it together is `Value.read_by_grammar`.
-/

namespace Cabinet.Value

open Text Numeral

/-! ### Bytes -/

/-- The trimmed text of a number: a hexadecimal numeral behind its mark, or a decimal numeral. -/
inductive Numbers : List Char → Nat → Prop where
  /-- The mark is a zero and an X, small or capital. -/
  | hexadecimal {mark : Char} {digits : List Char} {n : Nat} (hm : mark = 'x' ∨ mark = 'X')
      (h : Written 16 digits n) : Numbers ('0' :: mark :: digits) n
  /-- There is no mark. -/
  | decimal {cs : List Char} {n : Nat} (h : Written 10 cs n) : Numbers cs n

/-- The text stands for a number, after trimming. -/
def StandsFor (text : List Char) (n : Nat) : Prop := ∃ core, Trimmed text core ∧ Numbers core n

section Byte

variable {base limit n : Nat} {v : UInt8} {text digits shown core cs : List Char}

theorem number_eq_ok_iff (hb : base ≤ 16) (pos : 0 < base) :
    number base limit digits shown = .ok n ↔ n ≤ limit ∧ Written base digits n := by
  rw [← read_eq_ok_iff hb pos, number]
  cases read base limit digits with
  | ok m => simp
  | error fault => simp

theorem ofNat_number_eq_ok_iff (hb : base ≤ 16) (pos : 0 < base) :
    UInt8.ofNat <$> number base 255 digits shown = .ok v ↔ Written base digits v.toNat := by
  simp only [map_eq_ok_iff, number_eq_ok_iff hb pos]
  constructor
  · rintro ⟨n, ⟨le, written⟩, rfl⟩
    rwa [UInt8.toNat_ofNat', Nat.mod_eq_of_lt (by omega)]
  · intro written
    exact ⟨v.toNat, ⟨Nat.le_of_lt_succ v.toNat_lt, written⟩, UInt8.ofNat_toNat⟩

/-- No mark is part of a decimal numeral. -/
theorem not_written_mark {mark : Char} (hm : mark = 'x' ∨ mark = 'X') :
    ¬Written 10 ('0' :: mark :: cs) n := by
  rintro ⟨digits, -, ⟨ds, h, -⟩, rfl | sign⟩
  · cases h with
    | cons _ h =>
      cases h with
      | cons hd _ =>
        rw [← digit?_eq_some_iff (by decide)] at hd
        rcases hm with rfl | rfl <;> cases hd
  · cases sign

theorem numbers_mark_iff {mark : Char} (hm : mark = 'x' ∨ mark = 'X') :
    Numbers ('0' :: mark :: cs) n ↔ Written 16 cs n := by
  constructor
  · intro h
    generalize eq : '0' :: mark :: cs = text at h
    cases h with
    | hexadecimal _ h =>
      cases eq
      exact h
    | decimal h =>
      cases eq
      exact absurd h (not_written_mark hm)
  · exact .hexadecimal hm

/-- **Which texts are read as a byte.** -/
theorem byte_eq_ok_iff : byte text = .ok v ↔ StandsFor text v.toNat := by
  have trimmed : StandsFor text v.toNat ↔ Numbers (trim text) v.toNat := by
    constructor
    · rintro ⟨core, trimmed, h⟩
      rwa [trim_eq_iff.2 trimmed]
    · exact fun h => ⟨_, trimmed_trim text, h⟩
  rw [trimmed]
  unfold byte
  generalize trim text = core
  dsimp only
  split
  · rw [ofNat_number_eq_ok_iff (by decide) (by decide), numbers_mark_iff (.inl rfl)]
  · rw [ofNat_number_eq_ok_iff (by decide) (by decide), numbers_mark_iff (.inr rfl)]
  · next small capital =>
    rw [ofNat_number_eq_ok_iff (by decide) (by decide)]
    constructor
    · exact .decimal
    · intro h
      cases h with
      | hexadecimal hm _ =>
        rcases hm with rfl | rfl
        · exact absurd rfl (small _)
        · exact absurd rfl (capital _)
      | decimal h => exact h

theorem byte_eq_error_iff : (∃ e, byte text = .error e) ↔ ∀ n ≤ 255, ¬StandsFor text n := by
  simp only [exists_error_iff, byte_eq_ok_iff, ne_eq]
  constructor
  · intro none n hn
    have same := none (UInt8.ofNat n)
    rwa [UInt8.toNat_ofNat', Nat.mod_eq_of_lt (by omega)] at same
  · exact fun none v => none v.toNat (Nat.le_of_lt_succ v.toNat_lt)

end Byte

/-! ### Switches -/

/-- The text divided at all its commas. -/
def Divided (text : List Char) (parts : List (List Char)) : Prop :=
  parts ≠ [] ∧ (∀ part ∈ parts, ',' ∉ part) ∧ text = [','].intercalate parts

theorem commaParts_eq_splitOn (text : List Char) : commaParts text = text.splitOn ',' := by
  induction text with
  | nil => rfl
  | cons c cs ih =>
    rw [List.splitOn_cons_eq_if_modifyHead, commaParts, ih]
    by_cases comma : c = ','
    · rw [if_pos comma, if_pos (beq_iff_eq.2 comma)]
    · rw [if_neg comma, if_neg (comma ∘ beq_iff_eq.1)]
      cases eq : List.splitOn ',' cs with
      | nil => exact absurd eq (List.splitOn_ne_nil ',' cs)
      | cons part parts => rfl

theorem comma_not_mem {text part : List Char} (h : part ∈ commaParts text) : ',' ∉ part := by
  induction text generalizing part with
  | nil =>
    rw [List.mem_singleton.1 h]
    exact List.not_mem_nil
  | cons c cs ih =>
    rw [commaParts] at h
    by_cases comma : c = ','
    · rw [if_pos comma] at h
      rcases List.mem_cons.1 h with rfl | h
      · exact List.not_mem_nil
      · exact ih h
    · rw [if_neg comma] at h
      cases eq : commaParts cs with
      | nil => exact absurd (commaParts_eq_splitOn cs ▸ eq) (List.splitOn_ne_nil ',' cs)
      | cons first parts =>
        simp only [eq] at h ih
        rcases List.mem_cons.1 h with rfl | h
        · rw [List.mem_cons, not_or]
          exact ⟨Ne.symm comma, ih List.mem_cons_self⟩
        · exact ih (List.mem_cons_of_mem _ h)

/-- A text is divided in one way. -/
theorem commaParts_eq_iff {text : List Char} {parts : List (List Char)} :
    commaParts text = parts ↔ Divided text parts := by
  constructor
  · rintro rfl
    refine ⟨?_, fun _ => comma_not_mem, ?_⟩
    · rw [commaParts_eq_splitOn]
      exact List.splitOn_ne_nil ',' text
    · rw [commaParts_eq_splitOn, List.intercalate_splitOn]
  · rintro ⟨ne, free, rfl⟩
    rw [commaParts_eq_splitOn, List.splitOn_intercalate ',' free ne]

/-- The text stands for switches: three texts that stand for bytes, divided by commas. -/
def StandsForDips (text : List Char) (d : Dips) : Prop :=
  ∃ p q r, Divided text [p, q, r] ∧ StandsFor p d.first.toNat ∧ StandsFor q d.second.toNat ∧
    StandsFor r d.third.toNat

/-- Three switches from as many bytes. -/
def dipsOf : List UInt8 → Except ValueError Dips
  | [a, b, c] => .ok ⟨a, b, c⟩
  | bytes => .error (.byteCount bytes.length)

section Dips

variable {text : List Char} {bytes : List UInt8} {d : Dips} {e : ValueError}

theorem dips_eq (text : List Char) : dips text = (commaParts text).mapM byte >>= dipsOf := by
  rfl

theorem dipsOf_eq_ok_iff : dipsOf bytes = .ok d ↔ bytes = [d.first, d.second, d.third] := by
  unfold dipsOf
  split
  · rw [Except.ok.injEq]
    constructor
    · rintro rfl
      rfl
    · intro h
      cases h
      rfl
  · next other =>
    refine iff_of_false (by simp) ?_
    rintro rfl
    exact other _ _ _ rfl

theorem dipsOf_eq_error_iff :
    dipsOf bytes = .error e ↔ bytes.length ≠ 3 ∧ e = .byteCount bytes.length := by
  unfold dipsOf
  split
  · exact iff_of_false (by simp) (by simp)
  · next other =>
    have count : bytes.length ≠ 3 := by
      intro three
      obtain ⟨a, b, c, rfl⟩ := List.length_eq_three.1 three
      exact other a b c rfl
    rw [Except.error.injEq, eq_comm, and_iff_right count]

/-- **Which texts are read as switches.** -/
theorem dips_eq_ok_iff : dips text = .ok d ↔ StandsForDips text d := by
  simp only [StandsForDips, dips_eq, bind_eq_ok_iff, mapM_eq_ok_iff, dipsOf_eq_ok_iff, byte_eq_ok_iff,
    ← commaParts_eq_iff]
  constructor
  · rintro ⟨_, bytes, rfl⟩
    generalize commaParts text = parts at bytes
    cases bytes with | cons hp bytes
    cases bytes with | cons hq bytes
    cases bytes with | cons hr bytes
    cases bytes
    exact ⟨_, _, _, rfl, hp, hq, hr⟩
  · rintro ⟨p, q, r, parts, hp, hq, hr⟩
    rw [parts]
    exact ⟨_, .cons hp (.cons hq (.cons hr .nil)), rfl⟩

/-- **Why a text is not read as switches**: for its first part that is no byte, or, if there is none,
for the number of its parts. -/
theorem dips_eq_error_iff : dips text = .error e ↔ ∃ parts, Divided text parts ∧
    ((∃ front bad back, parts = front ++ bad :: back ∧ byte bad = .error e ∧
        ∀ part ∈ front, ∃ v : UInt8, StandsFor part v.toNat) ∨
      (∀ part ∈ parts, ∃ v : UInt8, StandsFor part v.toNat) ∧ parts.length ≠ 3 ∧
        e = .byteCount parts.length) := by
  simp only [dips_eq, bind_eq_error_iff, mapM_eq_error_iff, dipsOf_eq_error_iff, ← byte_eq_ok_iff,
    ← commaParts_eq_iff, exists_eq_left']
  refine or_congr_right ?_
  constructor
  · rintro ⟨bytes, all, count, rfl⟩
    rw [← (mapM_eq_ok_iff.1 all).length_eq] at count ⊢
    exact ⟨exists_mapM_eq_ok_iff.1 ⟨bytes, all⟩, count, rfl⟩
  · rintro ⟨all, count, rfl⟩
    obtain ⟨bytes, all⟩ := exists_mapM_eq_ok_iff.2 all
    rw [(mapM_eq_ok_iff.1 all).length_eq] at count ⊢
    exact ⟨bytes, all, count, rfl⟩

end Dips

/-! ### Changes of the buttons -/

/-- The text stands for a change of the buttons: a colon after a decimal numeral for the frame, and
before a text that stands for the byte of the buttons. The numeral has blanks around it; the colon is the
first of the text. -/
def StandsForEvent (text : List Char) (event : InputEvent) : Prop :=
  ∃ before bits, text = before ++ ':' :: bits ∧ ':' ∉ before ∧
    (∃ core, Trimmed before core ∧ Written 10 core event.frame.toNat) ∧
    StandsFor bits event.bits.toNat

section InputEvent

variable {text : List Char} {event : InputEvent}

/-- A text with a colon is divided at the first one. -/
theorem divided_at_colon {before bits : List Char} :
    text.takeWhile (· != ':') = before ∧ text.dropWhile (· != ':') = ':' :: bits ↔
      text = before ++ ':' :: bits ∧ ':' ∉ before := by
  constructor
  · rintro ⟨rfl, rest⟩
    refine ⟨?_, ?_⟩
    · rw [← rest, List.takeWhile_append_dropWhile]
    · intro colon
      simpa using List.mem_takeWhile_imp colon
  · rintro ⟨rfl, free⟩
    have other : ∀ c ∈ before, (c != ':') = true := by
      intro c hc
      rw [bne_iff_ne]
      rintro rfl
      exact free hc
    rw [List.takeWhile_append_of_pos other, List.dropWhile_append_of_pos other]
    simp

theorem dropWhile_colon_cons {c : Char} {bits : List Char}
    (h : text.dropWhile (· != ':') = c :: bits) : c = ':' := by
  have stop := List.head?_dropWhile_not (· != ':') text
  rw [h] at stop
  simpa using stop

theorem standsForEvent_iff : StandsForEvent text event ↔
    ∃ bits, text.dropWhile (· != ':') = ':' :: bits ∧
      Written 10 (trim (text.takeWhile (· != ':'))) event.frame.toNat ∧
      byte bits = .ok event.bits := by
  simp only [StandsForEvent, ← and_assoc, ← divided_at_colon, ← trim_eq_iff, exists_eq_left',
    byte_eq_ok_iff]
  simp only [and_assoc, exists_and_left, exists_eq_left']

/-- **Which texts are read as a change of the buttons.** -/
theorem inputEvent_eq_ok_iff : inputEvent text = .ok event ↔ StandsForEvent text event := by
  rw [standsForEvent_iff]
  unfold inputEvent
  dsimp only
  split
  · next c bits rest =>
    obtain rfl := dropWhile_colon_cons rest
    simp only [rest, List.cons.injEq, true_and, exists_eq_left', bind_eq_ok_iff,
      number_eq_ok_iff (show 10 ≤ 16 by decide) (by decide)]
    constructor
    · rintro ⟨n, ⟨within, written⟩, v, bits, h⟩
      cases h
      have frame : (UInt64.ofNat n).toNat = n :=
        UInt64.toNat_ofNat_of_lt' (Nat.lt_of_le_pred (by decide) within)
      rw [← frame] at written
      exact ⟨written, bits⟩
    · rintro ⟨written, bits⟩
      refine ⟨event.frame.toNat, ⟨Nat.le_pred_of_lt event.frame.toNat_lt, written⟩, _, bits, ?_⟩
      rw [UInt64.ofNat_toNat]
      rfl
  · next rest =>
    rw [rest]
    refine iff_of_false ?_ ?_
    · rintro h
      cases h
    · rintro ⟨bits, h, -⟩
      cases h

end InputEvent

/-! ### The three grammars -/

/-- **Values are read by their grammars, and every other text is refused.** A byte is a hexadecimal
numeral behind its mark or a decimal numeral, up to 255, with blanks around it. Switches are three such
texts divided by commas; a part that is no byte is reported before a wrong number of parts, and of such
parts the first. A change of the buttons is a frame and such a text, divided by the first colon. -/
theorem read_by_grammar (text : List Char) :
    ((∀ v, byte text = .ok v ↔ StandsFor text v.toNat) ∧
      ((∃ e, byte text = .error e) ↔ ∀ n ≤ 255, ¬StandsFor text n)) ∧
    ((∀ d, dips text = .ok d ↔ StandsForDips text d) ∧
      ∀ e, dips text = .error e ↔ ∃ parts, Divided text parts ∧
        ((∃ front bad back, parts = front ++ bad :: back ∧ byte bad = .error e ∧
            ∀ part ∈ front, ∃ v : UInt8, StandsFor part v.toNat) ∨
          (∀ part ∈ parts, ∃ v : UInt8, StandsFor part v.toNat) ∧ parts.length ≠ 3 ∧
            e = .byteCount parts.length)) ∧
    (∀ event, inputEvent text = .ok event ↔ StandsForEvent text event) ∧
      ((∃ e, inputEvent text = .error e) ↔ ∀ event, ¬StandsForEvent text event) := by
  refine ⟨⟨fun v => byte_eq_ok_iff, byte_eq_error_iff⟩,
    ⟨fun d => dips_eq_ok_iff, fun e => dips_eq_error_iff⟩, fun event => inputEvent_eq_ok_iff, ?_⟩
  simp only [exists_error_iff, inputEvent_eq_ok_iff, ne_eq]

/-! Two cases of it: the sign stands behind the mark, and the part that is no byte is reported, not that
there are only two. -/

example : byte " 0X+0fF".toList = .ok 255 := rfl

example : dips "1,300".toList = .error (.number "300" .tooLarge) := rfl

end Cabinet.Value
