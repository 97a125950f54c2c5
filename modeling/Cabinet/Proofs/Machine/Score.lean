import Cabinet.Proofs.Cpu.Decimal
import Cabinet.Proofs.Machine.Regular
/-!
# The score

A program counts the score by decimal addition and keeps it in two bytes, which an observation decodes.
What is observed is then the sum that was meant (`Machine.observes_decimal_sum`): the digits that do not
fit are dropped, and nothing else is lost.

That machines do this is shown on one with such a program in its chips (`Machine.scoringCode`). It is run
instruction by instruction (`Machine.stepped`), and what a part of the program does on any circuit
(`Circuit.exists_keepingCode`) is put together to what all of it does (`Machine.Reachable.exists_works`).
-/

namespace Cabinet

/-! ### A program that counts the score -/

namespace Circuit

/-- The program that adds `y` to `x` as decimal numbers and keeps the sum at an address: behind the
addition stands STA. -/
def keepingCode (x y : UInt8) (a : UInt16) : List UInt8 :=
  addingCode x y ++ [0x32, loByte a, hiByte a]

/-- **What this program does** is one byte of a run, which ends with the sum written. -/
theorem exists_keepingCode {σ : Type} [Bus σ] {w : Circuit σ} {s : σ} {x y : UInt8} {a : UInt16}
    (running : w.cpu.halted = false) (code : Bus.Gives (keepingCode x y a) w.cpu.pc w.bus s) :
    ∃ cpu : Cpu, w.after 4 = ⟨cpu, Bus.write a cpu.a s⟩ ∧ w.cpu.RunsOn 8 cpu ∧
      ∀ {items : List (UInt8 × UInt8)} {zs : List UInt8} {w' : Circuit σ},
        Works AddsDecimal (w.after 4) items zs w' →
          Works AddsDecimal w ((x, y) :: items) (cpu.a :: zs) w' := by
  obtain ⟨t, adding, storing⟩ := Bus.Gives.exists_append code
  obtain ⟨v, cpu, load, add, on⟩ := exists_addsDecimal running adding
  obtain ⟨cpu', store, same, on'⟩ := exists_stores (w := ⟨cpu, t⟩) on.running (storing _ on.pc)
  have four : w.after 4 = ⟨cpu', Bus.write a cpu'.a s⟩ := by
    rw [after_succ, ← add.eq_after load, ← store.eq_step]
  refine ⟨cpu', four, on.trans on', ?_⟩
  intro items zs w' more
  rw [same]
  exact .byte .refl load add (.of_passes store (four ▸ more))

end Circuit

namespace Machine

variable {m : Machine} {map : AddressMap}

/-- The machine after `k` instructions, each a burst of its own. -/
def stepped (m : Machine) (k : Nat) : Machine :=
  (m.performAll (List.replicate k (.stepCycles 1))).2

theorem circuit_stepped (settled : m.circuit.cpu.pending = 0) (k : Nat) :
    (m.stepped k).circuit = m.circuit.after k := by
  induction k generalizing m with
  | zero => rfl
  | succ k ih =>
    have one : (m.stepCycles 1).2.circuit = m.circuit.step.2 := Circuit.execute_one settled
    have settled' : (m.stepCycles 1).2.circuit.cpu.pending = 0 := Circuit.pending_execute ..
    show ((m.stepCycles 1).2.stepped k).circuit = m.circuit.step.2.after k
    rw [ih settled', one]

theorem map_stepped (k : Nat) : (m.stepped k).map = m.map := by
  induction k generalizing m with
  | zero => rfl
  | succ k ih => exact ih (m := (m.stepCycles 1).2)

/-- A part of the code in the chips is read where it stands. -/
theorem Reachable.gives_code {whole before code behind : List UInt8} {rom : Block}
    {checksums : List UInt32} (h : m.Reachable (codeChips whole)) (sound : m.Sound rom checksums)
    (parts : whole = before ++ code ++ behind) (fits : 1 + whole.length ≤ 0x800) {s : Board}
    (same : ∃ ram, s.memory = .ofBlocks rom ram) :
    Bus.Gives code (UInt16.ofNat (1 + before.length)) s s := by
  refine Board.gives_of_read fun k hk => ?_
  have length : whole.length = before.length + code.length + behind.length := by
    rw [parts, List.length_append, List.length_append]
  have inside : before.length + k < whole.length := by omega
  have place : UInt16.ofNat (1 + before.length) + UInt16.ofNat k =
      UInt16.ofNat (1 + (before.length + k)) := by
    rw [← UInt16.ofNat_add, Nat.add_assoc]
  have low : (UInt16.ofNat (1 + (before.length + k))).toNat < 0x2000 := by
    rw [UInt16.toNat_ofNat']
    omega
  have byte : whole[before.length + k] = code[k] := by
    subst parts
    simp [hk]
  rw [place, ← byte, ← h.read_code fits inside]
  exact congrArg Prod.fst (busRead_of_memory sound.memory rfl low s same)

theorem writable_of_memory {rom : Block} {s : Board} (same : ∃ ram, s.memory = .ofBlocks rom ram)
    {a : UInt16} (ha : 0x2000 ≤ a.toNat ∧ a.toNat < 0x4000) : Board.Writable a s := by
  obtain ⟨ram, memory⟩ := same
  have inside : (Bank.work ram).contains a = true := by
    rw [Bank.contains_work]
    exact decide_eq_true ha
  refine ⟨(Bank.work ram).read a, ?_⟩
  rw [memory, AddressSpace.cell_toMap (by simp [AddressSpace.ofBlocks]) inside]
  rfl

/-- Two bytes that are written to the memory that takes writes, one after the other, are both read. -/
theorem read_write_write {rom : Block} {s : Board} (same : ∃ ram, s.memory = .ofBlocks rom ram)
    {a b : UInt16} (apart : a ≠ b) (ha : 0x2000 ≤ a.toNat ∧ a.toNat < 0x4000)
    (hb : 0x2000 ≤ b.toNat ∧ b.toNat < 0x4000) (x y : UInt8) :
    (Bus.write b y (Bus.write a x s)).memory.read a = x ∧
      (Bus.write b y (Bus.write a x s)).memory.read b = y := by
  obtain ⟨_, first⟩ := writable_of_memory same ha
  obtain ⟨_, second⟩ := writable_of_memory ((keeps_program rom).write a x same) hb
  constructor
  · exact (AddressSpace.read_write_of_ne apart y).trans (AddressSpace.read_write_self first x)
  · exact AddressSpace.read_write_self second y

/-- The program of a machine that counts the score: the carry is set or left clear, and two bytes are
added and kept where an observation finds the score. -/
def scoringCode (map : AddressMap) (c : Bool) (x y x' y' : UInt8) : List UInt8 :=
  [bif c then 0x37 else 0x00] ++ Circuit.keepingCode x y map.scoreLow ++
    Circuit.keepingCode x' y' map.scoreHigh

theorem length_scoringCode (map : AddressMap) (c : Bool) (x y x' y' : UInt8) :
    (scoringCode map c x y x' y').length = 17 := rfl

/-- The first instruction of this program: the carry is as it is to be. -/
theorem Built.exists_carry {c : Bool} {x y x' y' : UInt8}
    (h : m.Built (codeChips (scoringCode map c x y x' y'))) :
    ∃ cpu : Cpu, m.circuit.step.2 = ⟨cpu, m.circuit.bus⟩ ∧ cpu.pc = 0x0002 ∧
      cpu.halted = false ∧ cpu.pending = 0 ∧ cpu.flags.carry = c := by
  have cpu := h.cpu_eq
  have running : m.circuit.cpu.halted = false := by
    rw [cpu]
    rfl
  have first : Bus.read m.circuit.cpu.pc m.circuit.bus = (bif c then 0x37 else 0x00, m.circuit.bus) := by
    have byte := (Reachable.built h).read_code (k := 0) (by simp [length_scoringCode])
      (by simp [length_scoringCode])
    rw [cpu]
    exact congrArg (·, m.circuit.bus) byte
  rw [Circuit.step_of_running running]
  cases c with
  | true =>
    rw [Circuit.stepRunning_of_read (i := .stc) first (Instruction.ofByte_eq_decode _) rfl, cpu]
    exact ⟨_, rfl, rfl, rfl, rfl, rfl⟩
  | false =>
    rw [Circuit.stepRunning_of_read (i := .nop) first (Instruction.ofByte_eq_decode _) rfl, cpu]
    exact ⟨_, rfl, rfl, rfl, rfl, rfl⟩

/-- **The rest of this program** is a run over both bytes, which ends with the sum where the score is
kept. -/
theorem Reachable.exists_works {c : Bool} {x y x' y' : UInt8}
    (h : m.Reachable (codeChips (scoringCode map c x y x' y'))) (pc : m.circuit.cpu.pc = 0x0002)
    (running : m.circuit.cpu.halted = false) (apart : map.scoreLow ≠ map.scoreHigh)
    (low : 0x2000 ≤ map.scoreLow.toNat ∧ map.scoreLow.toNat < 0x4000)
    (high : 0x2000 ≤ map.scoreHigh.toNat ∧ map.scoreHigh.toNat < 0x4000) :
    ∃ zs, Circuit.Works Circuit.AddsDecimal m.circuit [(x, y), (x', y')] zs (m.circuit.after 8) ∧
      zs = [(m.circuit.after 8).bus.memory.read map.scoreLow,
        (m.circuit.after 8).bus.memory.read map.scoreHigh] := by
  obtain ⟨rom, checksums, sound⟩ := exists_sound (codeChips (scoringCode map c x y x' y'))
  have program := (sound h).memory
  have fits : 1 + (scoringCode map c x y x' y').length ≤ 0x800 := by
    rw [length_scoringCode]
    decide
  have parts : scoringCode map c x y x' y' = [bif c then 0x37 else 0x00] ++
      Circuit.keepingCode x y map.scoreLow ++ Circuit.keepingCode x' y' map.scoreHigh := rfl
  have parts' : scoringCode map c x y x' y' = ([bif c then 0x37 else 0x00] ++
      Circuit.keepingCode x y map.scoreLow) ++ Circuit.keepingCode x' y' map.scoreHigh ++ [] :=
    (List.append_nil _).symm
  have code : Bus.Gives (Circuit.keepingCode x y map.scoreLow) m.circuit.cpu.pc m.circuit.bus
      m.circuit.bus := by
    rw [pc]
    exact h.gives_code (sound h) parts fits program
  obtain ⟨cpu, kept, on, works⟩ := Circuit.exists_keepingCode running code
  -- By now the first byte has been written, which has left the program alone.
  have program' := (keeps_program rom).write map.scoreLow cpu.a program
  have code' : Bus.Gives (Circuit.keepingCode x' y' map.scoreHigh) (m.circuit.after 4).cpu.pc
      (m.circuit.after 4).bus (m.circuit.after 4).bus := by
    rw [kept, on.pc, pc]
    exact h.gives_code (sound h) parts' fits program'
  obtain ⟨cpu', kept', -, works'⟩ :=
    Circuit.exists_keepingCode (w := m.circuit.after 4) (by rw [kept]; exact on.running) code'
  have eight : m.circuit.after 8 = (m.circuit.after 4).after 4 := rfl
  refine ⟨[cpu.a, cpu'.a], works (works' (.done .refl)), ?_⟩
  obtain ⟨readLow, readHigh⟩ := read_write_write program apart low high cpu.a cpu'.a
  rw [eight, kept', kept, readLow, readHigh]

end Machine

/-! ### What is observed -/

theorem Observation.toNat_packedDecimal (b : UInt8) : (packedDecimal b).toNat = decimalValue b := by
  revert b
  exact forall_byte (by decide +kernel)

namespace Machine

variable {m : Machine} {map : AddressMap}

/-- The score observed is the number of the two bytes. -/
theorem observe_score (h : m.map = some map)
    (digits : ∀ z ∈ [m.read map.scoreLow, m.read map.scoreHigh], IsDecimal z) :
    ∃ o, m.observe = .ok o ∧
      o.score.toNat = Little.decimal [m.read map.scoreLow, m.read map.scoreHigh] := by
  have low := (digits _ List.mem_cons_self).value_lt
  have high := (digits _ (List.mem_cons_of_mem _ List.mem_cons_self)).value_lt
  refine ⟨.take map m.read m.isHalted m.frames, ?_, ?_⟩
  · rw [observe, h]
  · rw [Little.decimal_cons, Little.decimal_cons, Little.decimal_nil]
    show (Observation.packedDecimal (m.read map.scoreHigh) * 100 +
      Observation.packedDecimal (m.read map.scoreLow)).toNat = _
    rw [UInt32.toNat_add, UInt32.toNat_mul, Observation.toNat_packedDecimal,
      Observation.toNat_packedDecimal]
    show (decimalValue (m.read map.scoreHigh) * 100 % 2 ^ 32 + _) % 2 ^ 32 = _
    omega

/-- Of a sum in the two bytes of the score all is seen but what they do not hold. -/
theorem observe_sum {zs : List UInt8} {carry sum : ℕ} (known : m.map = some map)
    (kept : zs = [m.read map.scoreLow, m.read map.scoreHigh]) (digits : ∀ z ∈ zs, IsDecimal z)
    (total : Little.decimal zs + 100 ^ zs.length * carry = sum) :
    ∃ o, m.observe = .ok o ∧ o.score.toNat = sum % 10000 := by
  obtain ⟨o, observed, score⟩ := observe_score known (kept ▸ digits)
  refine ⟨o, observed, ?_⟩
  have two : zs.length = 2 := congrArg List.length kept
  have fits := Little.decimal_lt digits
  rw [two] at total fits
  rw [score, ← kept, ← total]
  omega

/-- **Machines count the score in this way**: one with the program in its chips, from its second
instruction on. -/
theorem exists_scoring (map : AddressMap) (c : Bool) (x y x' y' : UInt8)
    (apart : map.scoreLow ≠ map.scoreHigh)
    (low : 0x2000 ≤ map.scoreLow.toNat ∧ map.scoreLow.toNat < 0x4000)
    (high : 0x2000 ≤ map.scoreHigh.toNat ∧ map.scoreHigh.toNat < 0x4000) :
    ∃ (chips : Chips) (m : Machine) (zs : List UInt8), m.Reachable chips ∧
      m.circuit.cpu.flags.carry = c ∧
      Circuit.Works Circuit.AddsDecimal m.circuit [(x, y), (x', y')] zs (m.stepped 8).circuit ∧
      (m.stepped 8).map = some map ∧
      zs = [(m.stepped 8).read map.scoreLow, (m.stepped 8).read map.scoreHigh] := by
  obtain ⟨b, built⟩ : ∃ b : Machine, b.Built (codeChips (scoringCode map c x y x' y')) :=
    ⟨_, built_coded _⟩
  have start : ((b.setMap (some map)).stepped 1).Reachable _ :=
    ((Reachable.built built).perform (.setMap (some map))).performAll _
  have settled : (b.setMap (some map)).circuit.cpu.pending = 0 := by
    show b.circuit.cpu.pending = 0
    rw [built.cpu_eq]
    rfl
  obtain ⟨cpu, first, pc, running, pending, carry⟩ := built.exists_carry
  have circuit : ((b.setMap (some map)).stepped 1).circuit = ⟨cpu, b.circuit.bus⟩ :=
    (circuit_stepped settled 1).trans first
  obtain ⟨zs, run, kept⟩ := start.exists_works (by rw [circuit]; exact pc)
    (by rw [circuit]; exact running) apart low high
  rw [← circuit_stepped (by rw [circuit]; exact pending) 8] at run kept
  refine ⟨_, _, zs, start, by rw [circuit]; exact carry, run, ?_, kept⟩
  rw [map_stepped, map_stepped]
  rfl

/-- **Decimal addition is exact, and so is the score.** A run over the bytes of two decimal numbers, which
loads each byte of the one, adds that of the other and adjusts the sum, adds the numbers and leaves
decimal digits, on any processor and bus and for numbers of any length. If the sum is of two bytes and
they are where the score is kept, an observation shows the sum as far as four digits hold it.

There are such runs. One circuit makes them over any bytes, from any carry; and a machine with a program
that counts the score makes them, with the sum where an observation finds it, for all two bytes of each
number, any carry, and any places in the memory that can be written. -/
theorem observes_decimal_sum :
    (∀ {σ : Type} [Bus σ] {w w' : Circuit σ} {items : List (UInt8 × UInt8)} {zs : List UInt8},
      Circuit.Works Circuit.AddsDecimal w items zs w' →
      (∀ item ∈ items, IsDecimal item.1 ∧ IsDecimal item.2) →
        zs.length = items.length ∧ (∀ z ∈ zs, IsDecimal z) ∧
        Little.decimal zs + 100 ^ items.length * w'.cpu.flags.carry.toNat =
          Little.decimal (items.map Prod.fst) + Little.decimal (items.map Prod.snd) +
            w.cpu.flags.carry.toNat ∧
        ∀ {m : Machine} {map : AddressMap}, m.map = some map →
          zs = [m.read map.scoreLow, m.read map.scoreHigh] → ∃ o, m.observe = .ok o ∧
            o.score.toNat = (Little.decimal (items.map Prod.fst) +
              Little.decimal (items.map Prod.snd) + w.cpu.flags.carry.toNat) % 10000) ∧
    (∀ (c : Bool) (items : List (UInt8 × UInt8)), ∃ (w w' : Circuit Tape) (zs : List UInt8),
      w.cpu.flags.carry = c ∧ Circuit.Works Circuit.AddsDecimal w items zs w') ∧
    ∀ (map : AddressMap) (c : Bool) (x y x' y' : UInt8), map.scoreLow ≠ map.scoreHigh →
      (0x2000 ≤ map.scoreLow.toNat ∧ map.scoreLow.toNat < 0x4000) →
      (0x2000 ≤ map.scoreHigh.toNat ∧ map.scoreHigh.toNat < 0x4000) →
        ∃ (chips : Chips) (m : Machine) (zs : List UInt8), m.Reachable chips ∧
          m.circuit.cpu.flags.carry = c ∧
          Circuit.Works Circuit.AddsDecimal m.circuit [(x, y), (x', y')] zs (m.stepped 8).circuit ∧
          (m.stepped 8).map = some map ∧
          zs = [(m.stepped 8).read map.scoreLow, (m.stepped 8).read map.scoreHigh] := by
  refine ⟨?_, ?_, exists_scoring⟩
  · intro σ _ w w' items zs run decimals
    obtain ⟨length, digits, total⟩ := run.decimal_adds decimals
    refine ⟨length, digits, total, ?_⟩
    intro m map known kept
    exact observe_sum known kept digits (length ▸ total)
  · intro c items
    let cpu : Cpu := { flags := { carry := c } }
    have running : cpu.halted = false := rfl
    obtain ⟨zs, w', run⟩ := Circuit.exists_works_adding running items
    exact ⟨_, w', zs, rfl, run⟩

/-- A program adds 5999 and 4001 and a carry: that is 10001, of which the score shows one point. -/
theorem scoring_observes_sum :
    ∃ (m : Machine) (low high : UInt8),
      Circuit.Works Circuit.AddsDecimal m.circuit [(0x99, 0x01), (0x59, 0x40)] [low, high]
        (m.stepped 8).circuit ∧
      (∃ chips, m.Reachable chips) ∧ m.circuit.cpu.flags.carry = true ∧
      (IsDecimal low ∧ IsDecimal high) ∧
      Little.decimal [low, high] + 10000 * (m.stepped 8).circuit.cpu.flags.carry.toNat = 10001 ∧
      ∃ o, (m.stepped 8).observe = .ok o ∧ o.score.toNat = 1 := by
  obtain ⟨sums, -, scored⟩ := observes_decimal_sum
  obtain ⟨chips, m, zs, reached, carry, run, known, kept⟩ :=
    scored .midway true 0x99 0x01 0x59 0x40 (by decide) (by decide) (by decide)
  obtain ⟨-, digits, total, shown⟩ := sums run (by simp [IsDecimal])
  obtain ⟨o, observed, score⟩ := shown known kept
  rw [carry] at total score
  subst kept
  refine ⟨m, _, _, run, ⟨chips, reached⟩, carry, ⟨?_, ?_⟩, total, o, observed, score⟩
  · exact digits _ (by simp)
  · exact digits _ (by simp)

end Machine

end Cabinet
