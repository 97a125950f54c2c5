import Cabinet.Proofs.Cpu.Arithmetic
import Mathlib.Data.Nat.Digits.Lemmas
/-!
# Chains over the bytes of a number

A number of many bytes is worked on byte by byte. Each byte in turn is in the accumulator and is worked
on, and the carry goes from one byte to the next (`Chain`); how a program brings the bytes there is told
with the programs that do (`Circuit.Works`). What one byte says, its number and the carry that it hands
on, adds up along the chain (`carry_step`): chains of additions and subtractions, and of rotations through
the carry, compute with numbers of any length (`Circuit.chains_compute`).
-/

namespace Cabinet

/-- The number that bytes stand for, the lowest first. -/
def Little.number (bs : List UInt8) : ℕ := Nat.ofDigits 256 (bs.map UInt8.toNat)

namespace Little

theorem number_nil : number [] = 0 := rfl

theorem number_cons (b : UInt8) (bs : List UInt8) :
    number (b :: bs) = b.toNat + 256 * number bs := by
  rw [number, List.map_cons, Nat.ofDigits_cons]
  rfl

theorem number_append_singleton (bs : List UInt8) (b : UInt8) :
    number (bs ++ [b]) = number bs + 256 ^ bs.length * b.toNat := by
  rw [number, List.map_append, Nat.ofDigits_append, List.length_map, List.map_singleton,
    Nat.ofDigits_singleton]
  rfl

theorem digit_lt (bs : List UInt8) : ∀ d ∈ bs.map UInt8.toNat, d < 256 :=
  List.forall_mem_map.2 fun b _ => b.toNat_lt

theorem number_lt (bs : List UInt8) : number bs < 256 ^ bs.length := by
  have bound := Nat.ofDigits_lt_base_pow_length (by decide) (digit_lt bs)
  rwa [List.length_map] at bound

/-- Bytes of one length that stand for the same number are the same. -/
theorem eq_of_number {bs cs : List UInt8} (length : bs.length = cs.length)
    (h : number bs = number cs) : bs = cs := by
  have same := Nat.ofDigits_inj_of_len_eq (by decide) (by simpa using length) (digit_lt bs)
    (digit_lt cs) h
  exact List.map_injective_iff.2 (fun _ _ => UInt8.toNat_inj.1) same

/-- Bytes and a carry beyond them are told by the number that they make up. -/
theorem eq_of_number_carry {bs cs : List UInt8} {b c : Bool} (length : bs.length = cs.length)
    (h : number bs + 256 ^ cs.length * b.toNat = number cs + 256 ^ cs.length * c.toNat) :
    bs = cs ∧ b = c := by
  have low := number_lt bs
  have low' := number_lt cs
  rw [length] at low
  have carry : b = c := by
    cases b <;> cases c <;> simp only [Bool.toNat_true, Bool.toNat_false] at h ⊢ <;> omega
  subst carry
  exact ⟨eq_of_number length (Nat.add_right_cancel h), rfl⟩

end Little

/-! ### Chains -/

/-- Bytes are worked on in turn, each together with what it is worked on with. The accumulator holds the
byte before and the result afterwards; the carry is what the byte before has left. What else happens to
the circuit between two bytes does not matter. -/
inductive Chain {σ β : Type} (Work : β → Circuit σ → Circuit σ → Prop) :
    Bool → List (UInt8 × β) → List UInt8 → Bool → Prop where
  /-- No byte is left. -/
  | done (c : Bool) : Chain Work c [] [] c
  /-- The next byte is worked on. -/
  | link {v v' : Circuit σ} {y : β} {items : List (UInt8 × β)} {zs : List UInt8} {c : Bool}
      (did : Work y v v') (more : Chain Work v'.cpu.flags.carry items zs c) :
      Chain Work v.cpu.flags.carry ((v.cpu.a, y) :: items) (v'.cpu.a :: zs) c

namespace Chain

variable {σ β : Type} {Work : β → Circuit σ → Circuit σ → Prop} {c c' : Bool}
  {items : List (UInt8 × β)} {zs : List UInt8}

theorem length_eq (h : Chain Work c items zs c') : zs.length = items.length := by
  induction h with
  | done c => rfl
  | link did more ih => exact congrArg (· + 1) ih

/-- If the work can be done on any byte, a chain can be done on any number of bytes. -/
theorem exists_of_work
    (able : ∀ x y c, ∃ v v' : Circuit σ, v.cpu.a = x ∧ v.cpu.flags.carry = c ∧ Work y v v')
    (c : Bool) (items : List (UInt8 × β)) : ∃ zs c', Chain Work c items zs c' := by
  induction items generalizing c with
  | nil => exact ⟨[], c, .done c⟩
  | cons item items ih =>
    obtain ⟨x, y⟩ := item
    obtain ⟨v, v', rfl, rfl, did⟩ := able x y c
    obtain ⟨zs, c', more⟩ := ih v'.cpu.flags.carry
    exact ⟨_, c', .link did more⟩

end Chain

/-- A digit `z` that hands on the carry `c₁`, and the `n` digits behind it, which hand on `c'`. -/
theorem carry_step {B n z s c c₁ c' Z S : ℕ} (digit : z + B * c₁ = s + c)
    (rest : Z + B ^ n * c' = S + c₁) : z + B * Z + B ^ (n + 1) * c' = s + B * S + c :=
  calc z + B * Z + B ^ (n + 1) * c' = z + B * (Z + B ^ n * c') := by ring
    _ = z + B * (S + c₁) := by rw [rest]
    _ = z + B * c₁ + B * S := by ring
    _ = s + B * S + c := by rw [digit]; ring

/-! ### Work on one byte -/

namespace Circuit

variable {σ : Type} [Bus σ] {op : AluOp} {v : UInt8} {w w' : Circuit σ}

/-- The next instruction is the operation on the byte `v`, which is in a register, in memory at HL, or
the operand byte. -/
inductive Faces (op : AluOp) (v : UInt8) (w : Circuit σ) : Prop where
  /-- On a byte operand. -/
  | operand (src : Operand) (opcode : w.opcode = 0x80 + 8 * op.field + src.field)
      (value : (w.source src).1 = v)
  /-- On the operand byte. -/
  | immediate (opcode : w.opcode = 0xC6 + 8 * op.field) (value : w.immediate.1 = v)

/-- A step is made, of the operation on the byte `v`. -/
structure Combines (op : AluOp) (v : UInt8) (w w' : Circuit σ) : Prop where
  running : w.cpu.halted = false
  faces : w.Faces op v
  after : w' = w.step.2

/-- A step is made, of the instruction that `byte` is. -/
structure Executes (byte : UInt8) (w w' : Circuit σ) : Prop where
  running : w.cpu.halted = false
  opcode : w.opcode = byte
  after : w' = w.step.2

theorem Combines.exists_cpu (h : w.Combines op v w') :
    ∃ n, w'.cpu = (w.cpu.advance n).calculated op v.toNat := by
  obtain ⟨running, faces, rfl⟩ := h
  cases faces with
  | operand src opcode value =>
    refine ⟨1, ?_⟩
    rw [step_alu running opcode, value]
  | immediate opcode value =>
    refine ⟨2, ?_⟩
    rw [step_aluImmediate running opcode, value]

theorem Combines.flags (h : w.Combines op v w') :
    w'.cpu.flags = op.flags w.cpu.a.toNat v.toNat (op.carryIn w.cpu.flags.carry) := by
  obtain ⟨n, cpu⟩ := h.exists_cpu
  rw [cpu]
  rfl

theorem Combines.sum (h : w.Combines .adc v w') :
    w'.cpu.a.toNat = (w.cpu.a.toNat + v.toNat + w.cpu.flags.carry.toNat) % 256 := by
  obtain ⟨n, cpu⟩ := h.exists_cpu
  rw [cpu]
  exact UInt8.toNat_ofNat'.trans (Nat.mod_mod ..)

/-- One byte of a sum. -/
theorem Combines.adc (h : w.Combines .adc v w') :
    w'.cpu.a.toNat + 256 * w'.cpu.flags.carry.toNat =
      w.cpu.a.toNat + v.toNat + w.cpu.flags.carry.toNat := by
  have hx := w.cpu.a.toNat_lt
  have hv := v.toNat_lt
  have hc := w.cpu.flags.carry.toNat_le
  have carry : w'.cpu.flags.carry =
      decide (255 < w.cpu.a.toNat + v.toNat + w.cpu.flags.carry.toNat) := by
    rw [h.flags]
    rfl
  rw [h.sum, carry]
  by_cases exceeds : 255 < w.cpu.a.toNat + v.toNat + w.cpu.flags.carry.toNat
  · rw [decide_eq_true exceeds, Bool.toNat_true]
    omega
  · rw [decide_eq_false exceeds, Bool.toNat_false]
    omega

/-- One byte of a difference: the byte from which is taken is the sum of what is taken and what is
left. -/
theorem Combines.sbb (h : w.Combines .sbb v w') :
    w.cpu.a.toNat + 256 * w'.cpu.flags.carry.toNat =
      w'.cpu.a.toNat + v.toNat + w.cpu.flags.carry.toNat := by
  obtain ⟨n, cpu⟩ := h.exists_cpu
  have hx := w.cpu.a.toNat_lt
  have hv := v.toNat_lt
  have hc := w.cpu.flags.carry.toNat_le
  have byte : w'.cpu.a.toNat =
      (((w.cpu.a.toNat : ℤ) - v.toNat - w.cpu.flags.carry.toNat) % 256).toNat := by
    rw [cpu]
    refine UInt8.toNat_ofNat'.trans (Nat.mod_eq_of_lt ?_)
    show (((w.cpu.a.toNat : ℤ) - v.toNat - w.cpu.flags.carry.toNat) % 256).toNat < 2 ^ 8
    omega
  have carry : w'.cpu.flags.carry =
      decide (w.cpu.a.toNat < v.toNat + w.cpu.flags.carry.toNat) := by
    rw [h.flags]
    rfl
  rw [byte, carry]
  by_cases under : w.cpu.a.toNat < v.toNat + w.cpu.flags.carry.toNat
  · rw [decide_eq_true under, Bool.toNat_true]
    omega
  · rw [decide_eq_false under, Bool.toNat_false]
    omega

theorem Executes.eq_exec {byte : UInt8} {i : Instruction} (h : w.Executes byte w')
    (decoded : Instruction.decode byte = i) (bare : i.operandBytes = 0) :
    w' = exec i 0 w.fetch.2 := by
  have found : Instruction.ofByte w.opcode = i := by
    rw [h.opcode, Instruction.ofByte_eq_decode, decoded]
  rw [h.after, step_of_opcode h.running found, bare]
  rfl

/-- One byte of a number shifted to the left. -/
theorem Executes.shl (h : w.Executes 0x17 w') :
    w'.cpu.a.toNat + 256 * w'.cpu.flags.carry.toNat =
      2 * w.cpu.a.toNat + w.cpu.flags.carry.toNat := by
  have law (c : Bool) : ∀ v : UInt8, ((v <<< 1) ||| c.toUInt8).toNat +
      256 * (v &&& 0x80 != 0).toNat = 2 * v.toNat + c.toNat :=
    forall_byte (by cases c <;> decide +kernel)
  rw [h.eq_exec (i := .ral) rfl rfl]
  exact law w.cpu.flags.carry w.cpu.a

/-- One byte of a number shifted to the right. -/
theorem Executes.shr (h : w.Executes 0x1F w') :
    2 * w'.cpu.a.toNat + w'.cpu.flags.carry.toNat =
      w.cpu.a.toNat + 256 * w.cpu.flags.carry.toNat := by
  have law (c : Bool) : ∀ v : UInt8, 2 * ((v >>> 1) ||| (c.toUInt8 <<< 7)).toNat +
      (v &&& 0x01 != 0).toNat = v.toNat + 256 * c.toNat :=
    forall_byte (by cases c <;> decide +kernel)
  rw [h.eq_exec (i := .rar) rfl rfl]
  exact law w.cpu.flags.carry w.cpu.a

end Circuit

/-! ### Chains of work -/

namespace Chain

variable {σ : Type} [Bus σ] {c c' : Bool} {zs : List UInt8}

/-- **A chain of additions is the addition of the numbers.** -/
theorem number_adc {items : List (UInt8 × UInt8)}
    (h : Chain (Circuit.Combines (σ := σ) .adc) c items zs c') :
    Little.number zs + 256 ^ items.length * c'.toNat =
      Little.number (items.map Prod.fst) + Little.number (items.map Prod.snd) + c.toNat := by
  induction h with
  | done c => simp [Little.number_nil]
  | link did more ih =>
    have all := carry_step did.adc ih
    simp only [List.length_cons, List.map_cons, Little.number_cons]
    linarith only [all]

/-- **A chain of subtractions is the subtraction of the numbers**: what is left and what was taken make
up what was there. -/
theorem number_sbb {items : List (UInt8 × UInt8)}
    (h : Chain (Circuit.Combines (σ := σ) .sbb) c items zs c') :
    Little.number (items.map Prod.fst) + 256 ^ items.length * c'.toNat =
      Little.number zs + Little.number (items.map Prod.snd) + c.toNat := by
  induction h with
  | done c => simp [Little.number_nil]
  | link did more ih =>
    have all := carry_step did.sbb ih
    simp only [List.length_cons, List.map_cons, Little.number_cons]
    linarith only [all]

/-- **A chain of rotations to the left doubles the number.** -/
theorem number_ral {items : List (UInt8 × Unit)}
    (h : Chain (fun _ => Circuit.Executes (σ := σ) 0x17) c items zs c') :
    Little.number zs + 256 ^ items.length * c'.toNat =
      2 * Little.number (items.map Prod.fst) + c.toNat := by
  induction h with
  | done c => simp [Little.number_nil]
  | link did more ih =>
    have all := carry_step did.shl ih
    simp only [List.length_cons, List.map_cons, Little.number_cons]
    linarith only [all]

/-- **A chain of rotations to the right, from the highest byte on, halves the number.** -/
theorem number_rar {items : List (UInt8 × Unit)}
    (h : Chain (fun _ => Circuit.Executes (σ := σ) 0x1F) c items zs c') :
    2 * Little.number zs.reverse + c'.toNat =
      Little.number (items.map Prod.fst).reverse + 256 ^ items.length * c.toNat := by
  induction h with
  | done c => simp [Little.number_nil]
  | @link v v' _ items zs c' did more ih =>
    -- The first byte is the highest, so its equation counts as often as the bytes behind it have values.
    have digit := did.shr
    simp only [List.length_cons, List.map_cons, List.reverse_cons, Little.number_append_singleton,
      List.length_reverse, List.length_map, more.length_eq]
    calc 2 * (Little.number zs.reverse + 256 ^ items.length * v'.cpu.a.toNat) + c'.toNat
      _ = 2 * Little.number zs.reverse + c'.toNat + 256 ^ items.length * (2 * v'.cpu.a.toNat) := by
        ring
      _ = Little.number (items.map Prod.fst).reverse +
          256 ^ items.length * (2 * v'.cpu.a.toNat + v'.cpu.flags.carry.toNat) := by rw [ih]; ring
      _ = _ := by rw [digit]; ring

/-- The subtraction of what was added gives back what was there. -/
theorem sbb_adc {items : List (UInt8 × UInt8)} {ws : List UInt8} {c'' : Bool}
    (add : Chain (Circuit.Combines (σ := σ) .adc) c items zs c')
    (sub : Chain (Circuit.Combines (σ := σ) .sbb) c (zs.zip (items.map Prod.snd)) ws c'') :
    ws = items.map Prod.fst ∧ c'' = c' := by
  have count : zs.length = (items.map Prod.snd).length := by simpa using add.length_eq
  have length : (zs.zip (items.map Prod.snd)).length = items.length := by
    simpa [List.length_zip] using add.length_eq.ge
  have made := add.number_adc
  have taken := sub.number_sbb
  rw [List.map_fst_zip count.le, List.map_snd_zip count.ge, length] at taken
  have same : ws.length = (items.map Prod.fst).length := by
    rw [sub.length_eq, length, List.length_map]
  have numbers : Little.number (items.map Prod.fst) + 256 ^ ws.length * c''.toNat =
      Little.number ws + 256 ^ ws.length * c'.toNat := by
    rw [sub.length_eq, length]
    omega
  obtain ⟨bytes, carry⟩ := Little.eq_of_number_carry same.symm numbers
  exact ⟨bytes.symm, carry⟩

/-- The rotations to the right, from the carry that the rotations to the left have left, give back what
was there. -/
theorem rar_ral {items : List (UInt8 × Unit)} {ws : List UInt8} {c'' : Bool}
    (left : Chain (fun _ => Circuit.Executes (σ := σ) 0x17) c items zs c')
    (right : Chain (fun _ => Circuit.Executes (σ := σ) 0x1F) c' (zs.reverse.map (·, ())) ws c'') :
    ws.reverse = items.map Prod.fst ∧ c'' = c := by
  have doubled := left.number_ral
  have halved := right.number_rar
  have fst : ((zs.reverse.map (·, ())).map Prod.fst) = zs.reverse := by
    rw [List.map_map]
    exact List.map_id _
  rw [fst, List.reverse_reverse, List.length_map, List.length_reverse, left.length_eq, doubled]
    at halved
  have same : ws.reverse.length = (items.map Prod.fst).length := by
    simpa [left.length_eq] using right.length_eq
  have carry := c.toNat_le
  have carry' := c''.toNat_le
  constructor
  · exact Little.eq_of_number same (by omega)
  · have carries : c''.toNat = c.toNat := by omega
    rw [Bool.eq_iff_iff, ← Bool.toNat_eq_one, carries, Bool.toNat_eq_one]

end Chain

namespace Circuit

theorem immediate_flat (cpu : Cpu) (code : List UInt8) :
    (Circuit.mk cpu (Board.flat code)).immediate =
      (code.getD (cpu.pc + 1).toNat 0, Board.flat code) := by
  show Bus.read (cpu.pc + 1) (Bus.read cpu.pc (Board.flat code)).2 = _
  rw [Board.read_flat, Board.read_flat]

/-- An operation can be made on any two bytes and carry. -/
theorem exists_combines (op : AluOp) (x y : UInt8) (c : Bool) :
    ∃ v v' : Circuit Board, v.cpu.a = x ∧ v.cpu.flags.carry = c ∧ v.Combines op y v' := by
  let v : Circuit Board :=
    ⟨{ a := x, flags := { carry := c } }, .flat [0xC6 + 8 * op.field, y]⟩
  have value : v.immediate.1 = y := congrArg Prod.fst (immediate_flat _ _)
  exact ⟨v, v.step.2, rfl, rfl, rfl, .immediate (opcode_flat _ _) value, rfl⟩

/-- Any instruction of one byte can be made on any byte and carry. -/
theorem exists_executes (byte x : UInt8) (c : Bool) :
    ∃ v v' : Circuit Board, v.cpu.a = x ∧ v.cpu.flags.carry = c ∧ v.Executes byte v' := by
  let v : Circuit Board := ⟨{ a := x, flags := { carry := c } }, .flat [byte]⟩
  exact ⟨v, v.step.2, rfl, rfl, rfl, opcode_flat _ _, rfl⟩

/-- **Chains compute with numbers of any length.** Additions and subtractions with the carry, from the
lowest byte on, are the addition and the subtraction of the numbers; rotations through the carry, to the
left from the lowest byte on and to the right from the highest, double and halve. There are as many
bytes afterwards, and the carry is what they do not hold. A subtraction undoes an addition, and rotations
to the right undo those to the left. -/
theorem chains_compute :
    (∀ op c items, ∃ zs c', Chain (Combines (σ := Board) op) c items zs c') ∧
    (∀ byte c (items : List (UInt8 × Unit)),
      ∃ zs c', Chain (fun _ => Executes (σ := Board) byte) c items zs c') ∧
    ∀ {σ : Type} [Bus σ] {c c' : Bool} {zs : List UInt8},
      (∀ {β : Type} {Work : β → Circuit σ → Circuit σ → Prop} {items : List (UInt8 × β)},
        Chain Work c items zs c' → zs.length = items.length) ∧
      (∀ {items : List (UInt8 × UInt8)}, Chain (Combines (σ := σ) .adc) c items zs c' →
        Little.number zs + 256 ^ items.length * c'.toNat =
          Little.number (items.map Prod.fst) + Little.number (items.map Prod.snd) + c.toNat ∧
        ∀ {ws c''}, Chain (Combines (σ := σ) .sbb) c (zs.zip (items.map Prod.snd)) ws c'' →
          ws = items.map Prod.fst ∧ c'' = c') ∧
      (∀ {items : List (UInt8 × UInt8)}, Chain (Combines (σ := σ) .sbb) c items zs c' →
        (Little.number zs : ℤ) =
          (Little.number (items.map Prod.fst) : ℤ) - Little.number (items.map Prod.snd) - c.toNat +
            256 ^ items.length * c'.toNat) ∧
      (∀ {items : List (UInt8 × Unit)}, Chain (fun _ => Executes (σ := σ) 0x17) c items zs c' →
        Little.number zs + 256 ^ items.length * c'.toNat =
          2 * Little.number (items.map Prod.fst) + c.toNat ∧
        ∀ {ws c''}, Chain (fun _ => Executes (σ := σ) 0x1F) c' (zs.reverse.map (·, ())) ws c'' →
          ws.reverse = items.map Prod.fst ∧ c'' = c) ∧
      (∀ {items : List (UInt8 × Unit)}, Chain (fun _ => Executes (σ := σ) 0x1F) c items zs c' →
        2 * Little.number zs.reverse + c'.toNat =
          Little.number (items.map Prod.fst).reverse + 256 ^ items.length * c.toNat) := by
  refine ⟨?_, ?_, ?_⟩
  · intro op c items
    exact Chain.exists_of_work (exists_combines op) c items
  · intro byte c items
    exact Chain.exists_of_work (fun x _ => exists_executes byte x) c items
  · intro σ _ c c' zs
    refine ⟨?_, ?_, ?_, ?_, ?_⟩
    · intro β Work items chain
      exact chain.length_eq
    · intro items add
      exact ⟨add.number_adc, add.sbb_adc⟩
    · intro items sub
      have taken := sub.number_sbb
      have taken' : (Little.number (items.map Prod.fst) : ℤ) + 256 ^ items.length * c'.toNat =
          Little.number zs + Little.number (items.map Prod.snd) + c.toNat := by exact_mod_cast taken
      omega
    · intro items left
      exact ⟨left.number_ral, left.rar_ral⟩
    · intro items right
      exact right.number_rar

/-- Two bytes of 511: one and a carry are added and taken away, and they are rotated to the left and
back. -/
theorem chains_of_two_bytes :
    (∃ zs c' ws c'', Chain (Combines (σ := Board) .adc) true [(0xFF, 0x01), (0x01, 0x00)] zs c' ∧
      Chain (Combines (σ := Board) .sbb) true (zs.zip [0x01, 0x00]) ws c'' ∧
      Little.number zs + 256 ^ 2 * c'.toNat = 513 ∧ ws = [0xFF, 0x01] ∧ c'' = c') ∧
    ∃ zs c' ws c'', Chain (fun _ => Executes (σ := Board) 0x17) true [(0xFF, ()), (0x01, ())] zs c' ∧
      Chain (fun _ => Executes (σ := Board) 0x1F) c' (zs.reverse.map (·, ())) ws c'' ∧
      Little.number zs + 256 ^ 2 * c'.toNat = 1023 ∧ ws.reverse = [0xFF, 0x01] ∧ c'' = true := by
  obtain ⟨combined, rotated, laws⟩ := chains_compute
  obtain ⟨zs, c', sum⟩ := combined .adc true [(0xFF, 0x01), (0x01, 0x00)]
  obtain ⟨ws, c'', back⟩ := combined .sbb true (zs.zip [0x01, 0x00])
  obtain ⟨total, undone⟩ := laws.2.1 sum
  obtain ⟨zs', d, left⟩ := rotated 0x17 true [(0xFF, ()), (0x01, ())]
  obtain ⟨ws', d', right⟩ := rotated 0x1F d (zs'.reverse.map (·, ()))
  obtain ⟨doubled, restored⟩ := laws.2.2.2.1 left
  exact ⟨⟨zs, c', ws, c'', sum, back, total, undone back⟩,
    zs', d, ws', d', left, right, doubled, restored right⟩

end Circuit

end Cabinet
