import Cabinet.Proofs.Cpu.Chain
import Cabinet.Proofs.Cpu.Footprint
/-!
# Runs over the bytes of a number

A program works on a number of many bytes one byte after the other, all of it on one circuit and step by
step (`Circuit.Works`): it loads a byte into the accumulator, works on it, and then stores what has become
of it, moves its pointers, counts and goes on to the next. Loading puts the byte there and keeps the carry
(`Circuit.Loads.exists_cpu`), and whatever else the program does in between is known to keep it by the
instructions that it uses (`Circuit.Passes.carry`). So such a run is a chain (`Circuit.Works.chain`), and
what chains compute it computes.

The program is found by reading (`Bus.Gives`), in memory of the board or on a tape, and piece by piece it
is known what it does (`Circuit.exists_loads` and the lemmas behind it). On a tape there is room for the
program of any number of bytes, so that one circuit works on all of them (`Circuit.exists_works`): it makes
the chains of additions, subtractions and rotations (`Circuit.exists_works_combines`,
`Circuit.exists_works_executes`).
-/

namespace Cabinet

/-- The field that names a pair of STAX and LDAX. -/
def IndexPair.field : IndexPair → UInt8
  | .bc => 0
  | .de => 1

namespace Circuit

variable {σ : Type} [Bus σ] {w w' : Circuit σ} {x : UInt8}

/-! ### Loading the accumulator -/

/-- The byte at the operand address of the next instruction, and the bus when it has been read. -/
def direct (w : Circuit σ) : UInt8 × σ := Bus.read w.argument w.argumentBus

/-- The byte at the address in a pair, and the bus when it has been read. -/
def indexed (w : Circuit σ) : IndexPair → UInt8 × σ
  | .bc => Bus.read w.cpu.bc w.fetch.2.bus
  | .de => Bus.read w.cpu.de w.fetch.2.bus

/-- The byte at the port that the operand byte names, and the bus when it has been read. -/
def port (w : Circuit σ) : UInt8 × σ := Bus.input (portAddress w.immediate.1) w.immediate.2

/-- The next instruction loads the accumulator, and what it finds to load is the byte `x`. -/
inductive Offers (x : UInt8) (w : Circuit σ) : Prop where
  /-- In a register, or in memory at HL. -/
  | operand (src : Operand) (opcode : w.opcode = 0x78 + src.field) (value : (w.source src).1 = x)
  /-- Behind the first byte of the instruction. -/
  | immediate (opcode : w.opcode = 0x3E) (value : w.immediate.1 = x)
  /-- In memory at the operand address. -/
  | direct (opcode : w.opcode = 0x3A) (value : w.direct.1 = x)
  /-- In memory at the address in a pair. -/
  | indexed (pair : IndexPair) (opcode : w.opcode = 0x0A + 16 * pair.field)
      (value : (w.indexed pair).1 = x)
  /-- At the port that the operand byte names. -/
  | port (opcode : w.opcode = 0xDB) (value : w.port.1 = x)

/-- A step is made, of an instruction that loads the byte `x` into the accumulator. -/
structure Loads (x : UInt8) (w w' : Circuit σ) : Prop where
  running : w.cpu.halted = false
  offers : w.Offers x
  after : w' = w.step.2

section Steps

variable (running : w.cpu.halted = false)
include running

theorem step_load {src : Operand} (h : w.opcode = 0x78 + src.field) :
    w.step.2 = ⟨{ w.cpu.advance 1 with a := (w.source src).1 }, (w.source src).2⟩ := by
  have found : Instruction.ofByte w.opcode = .mov (.reg .a) src :=
    Instruction.ofByte_of_mem_bytes (h ▸ List.mem_singleton_self _)
  rw [step_of_opcode running found]
  show exec (.mov (.reg .a) src) 0 w.fetch.2 = _
  rw [exec, operand_fetch]
  rfl

theorem step_loadImmediate (h : w.opcode = 0x3E) :
    w.step.2 = ⟨{ w.cpu.advance 2 with a := w.immediate.1 }, w.immediate.2⟩ := by
  have found : Instruction.ofByte w.opcode = .mvi (.reg .a) :=
    Instruction.ofByte_of_mem_bytes (h ▸ List.mem_singleton_self _)
  have low : loByte w.immediate.1.toUInt16 = w.immediate.1 := UInt8.toUInt8_toUInt16 _
  rw [step_of_opcode running found]
  show exec (.mvi (.reg .a)) (w.fetch.2.fetchOperand 1).1 (w.fetch.2.fetchOperand 1).2 = _
  rw [fetchOperand_one, exec, low]
  rfl

theorem step_loadDirect (h : w.opcode = 0x3A) :
    w.step.2 = ⟨{ w.cpu.advance 3 with a := w.direct.1 }, w.direct.2⟩ := by
  have found : Instruction.ofByte w.opcode = .lda :=
    Instruction.ofByte_of_mem_bytes (h ▸ List.mem_singleton_self _)
  rw [step_of_opcode running found]
  show exec .lda (w.fetch.2.fetchOperand 2).1 (w.fetch.2.fetchOperand 2).2 = _
  rw [fetchOperand_two]
  rfl

theorem step_loadIndexed {pair : IndexPair} (h : w.opcode = 0x0A + 16 * pair.field) :
    w.step.2 = ⟨{ w.cpu.advance 1 with a := (w.indexed pair).1 }, (w.indexed pair).2⟩ := by
  have found : Instruction.ofByte w.opcode = .ldax pair := by
    rw [h, Instruction.ofByte_eq_decode]
    cases pair <;> rfl
  rw [step_of_opcode running found]
  cases pair <;> rfl

theorem step_loadPort (h : w.opcode = 0xDB) :
    w.step.2 = ⟨{ w.cpu.advance 2 with a := w.port.1 }, w.port.2⟩ := by
  have found : Instruction.ofByte w.opcode = .input :=
    Instruction.ofByte_of_mem_bytes (h ▸ List.mem_singleton_self _)
  have low : loByte w.immediate.1.toUInt16 = w.immediate.1 := UInt8.toUInt8_toUInt16 _
  rw [step_of_opcode running found]
  show exec .input (w.fetch.2.fetchOperand 1).1 (w.fetch.2.fetchOperand 1).2 = _
  rw [fetchOperand_one, exec, low]
  rfl

end Steps

/-- **Loading** puts the byte into the accumulator, and changes nothing else of the processor but the
program counter. -/
theorem Loads.exists_cpu (h : w.Loads x w') : ∃ n, w'.cpu = { w.cpu.advance n with a := x } := by
  obtain ⟨running, offers, rfl⟩ := h
  cases offers with
  | operand src opcode value =>
    refine ⟨1, ?_⟩
    rw [step_load running opcode, value]
  | immediate opcode value =>
    refine ⟨2, ?_⟩
    rw [step_loadImmediate running opcode, value]
  | direct opcode value =>
    refine ⟨3, ?_⟩
    rw [step_loadDirect running opcode, value]
  | indexed pair opcode value =>
    refine ⟨1, ?_⟩
    rw [step_loadIndexed running opcode, value]
  | port opcode value =>
    refine ⟨2, ?_⟩
    rw [step_loadPort running opcode, value]

/-! ### Other steps -/

/-- A step is made, of an instruction that is not documented to change the carry. -/
def Passes (w w' : Circuit σ) : Prop :=
  ∃ i : Instruction, w.opcode ∈ i.bytes ∧ Cpu.Part.carry ∉ i.changes w.cpu.flags ∧ w' = w.step.2

theorem Passes.eq_step (h : w.Passes w') : w' = w.step.2 := by
  obtain ⟨i, -, -, after⟩ := h
  exact after

theorem Passes.carry (h : w.Passes w') : w'.cpu.flags.carry = w.cpu.flags.carry := by
  obtain ⟨i, opcode, untouched, rfl⟩ := h
  exact differs_step opcode .carry untouched

/-- Any number of such steps are made. -/
def PassesOn : Circuit σ → Circuit σ → Prop := Relation.ReflTransGen Passes

theorem PassesOn.carry (h : w.PassesOn w') : w'.cpu.flags.carry = w.cpu.flags.carry := by
  induction h with
  | refl => rfl
  | tail _ step ih => exact step.carry.trans ih

/-! ### Runs -/

/-- From `w` to `w'` bytes are worked on in turn, each together with what it is worked on with: it is
loaded, and the very next thing is the work. Before each byte and behind the last one the circuit may make
other steps, none of which touches the carry. Given are the bytes and what becomes of them. -/
inductive Works {β : Type} (Work : β → Circuit σ → Circuit σ → Prop) :
    Circuit σ → List (UInt8 × β) → List UInt8 → Circuit σ → Prop where
  /-- No byte is left. -/
  | done {w w' : Circuit σ} (others : w.PassesOn w') : Works Work w [] [] w'
  /-- The next byte is loaded and worked on. -/
  | byte {w u v v' w' : Circuit σ} {x : UInt8} {y : β} {items : List (UInt8 × β)} {zs : List UInt8}
      (others : w.PassesOn u) (load : u.Loads x v) (did : Work y v v')
      (more : Works Work v' items zs w') : Works Work w ((x, y) :: items) (v'.cpu.a :: zs) w'

/-- A step that does not touch the carry may come first. -/
theorem Works.of_passes {β : Type} {Work : β → Circuit σ → Circuit σ → Prop} {u : Circuit σ}
    {items : List (UInt8 × β)} {zs : List UInt8} (first : w.Passes u) (h : Works Work u items zs w') :
    Works Work w items zs w' := by
  cases h with
  | done others => exact .done (others.head first)
  | byte others load did more => exact .byte (others.head first) load did more

/-- **A run over bytes is a chain**: each byte is found in the accumulator, and the carry is the one that
the byte before has left. -/
theorem Works.chain {β : Type} {Work : β → Circuit σ → Circuit σ → Prop} {items : List (UInt8 × β)}
    {zs : List UInt8} (h : Works Work w items zs w') :
    Chain Work w.cpu.flags.carry items zs w'.cpu.flags.carry := by
  induction h with
  | done others =>
    rw [others.carry]
    exact .done _
  | @byte w u v v' w' x y items zs others load did more ih =>
    obtain ⟨n, cpu⟩ := load.exists_cpu
    -- The byte is in the accumulator, and the carry has come through the other steps and the load.
    have loaded : v.cpu.a = x := by rw [cpu]
    have carry : v.cpu.flags.carry = w.cpu.flags.carry := by
      rw [cpu, ← others.carry]
      rfl
    rw [← loaded, ← carry]
    exact .link did ih

end Circuit

/-! ### Programs -/

/-- The processor runs on, `n` bytes further. -/
structure Cpu.RunsOn (c : Cpu) (n : UInt16) (c' : Cpu) : Prop where
  running : c'.halted = false
  pc : c'.pc = c.pc + n

theorem Cpu.RunsOn.trans {c c' c'' : Cpu} {n n' : UInt16} (h : c.RunsOn n c') (h' : c'.RunsOn n' c'') :
    c.RunsOn (n + n') c'' where
  running := h'.running
  pc := by rw [h'.pc, h.pc, UInt16.add_assoc]

theorem add_one_add_ofNat (a : UInt16) (n : Nat) : a + 1 + UInt16.ofNat n = a + UInt16.ofNat (n + 1) := by
  rw [UInt16.ofNat_add, UInt16.add_assoc, UInt16.add_comm 1]
  rfl

/-- The next bytes that are read, at `a` and on, are these, and afterwards the bus is `s'`. -/
def Bus.Gives {σ : Type} [Bus σ] : List UInt8 → UInt16 → σ → σ → Prop
  | [], _, s, s' => s' = s
  | b :: bs, a, s, s' => ∃ t, Bus.read a s = (b, t) ∧ Gives bs (a + 1) t s'

/-- One piece of a program is read, and then the next, where the first one ends. -/
theorem Bus.Gives.exists_append {σ : Type} [Bus σ] {bs cs : List UInt8} {a : UInt16} {s s'' : σ}
    (h : Gives (bs ++ cs) a s s'') :
    ∃ s', Gives bs a s s' ∧ ∀ b, b = a + UInt16.ofNat bs.length → Gives cs b s' s'' := by
  induction bs generalizing a s with
  | nil =>
    refine ⟨s, rfl, ?_⟩
    rintro b rfl
    simpa using h
  | cons b bs ih =>
    obtain ⟨t, first, rest⟩ := h
    obtain ⟨s', here, there⟩ := ih rest
    rw [add_one_add_ofNat] at there
    exact ⟨s', ⟨t, first, here⟩, there⟩

namespace Circuit

variable {σ : Type} [Bus σ] {w : Circuit σ} {s s' : σ} {x y byte operand : UInt8} {i : Instruction}

theorem opcode_of_read (h : Bus.read w.cpu.pc w.bus = (byte, s)) : w.opcode = byte :=
  congrArg Prod.fst h

theorem immediate_of_read (h : Bus.read w.cpu.pc w.bus = (byte, s))
    (h' : Bus.read (w.cpu.pc + 1) s = (operand, s')) : w.immediate = (operand, s') := by
  rw [immediate, fetch_of_read h]
  exact h'

section Pieces

variable (running : w.cpu.halted = false)
include running

/-- MVI A loads the byte behind it. -/
theorem exists_loads (code : Bus.Gives [0x3E, x] w.cpu.pc w.bus s) :
    ∃ cpu, w.Loads x ⟨cpu, s⟩ ∧ w.cpu.RunsOn 2 cpu := by
  obtain ⟨s₁, first, s₂, second, rfl⟩ := code
  have opcode := opcode_of_read first
  have found := immediate_of_read first second
  have after : (Circuit.mk { w.cpu.advance 2 with a := x } s : Circuit σ) = w.step.2 := by
    rw [step_loadImmediate running opcode, found]
  exact ⟨_, ⟨running, .immediate opcode (congrArg Prod.fst found), after⟩, ⟨running, rfl⟩⟩

/-- An operation on the byte behind it. -/
theorem exists_combines_immediate {op : AluOp}
    (code : Bus.Gives [0xC6 + 8 * op.field, y] w.cpu.pc w.bus s) :
    ∃ cpu, w.Combines op y ⟨cpu, s⟩ ∧ w.cpu.RunsOn 2 cpu := by
  obtain ⟨s₁, first, s₂, second, rfl⟩ := code
  have opcode := opcode_of_read first
  have found := immediate_of_read first second
  have after : (Circuit.mk ((w.cpu.advance 2).calculated op y.toNat) s : Circuit σ) = w.step.2 := by
    rw [step_aluImmediate running opcode, found]
  exact ⟨_, ⟨running, .immediate opcode (congrArg Prod.fst found), after⟩, ⟨running, rfl⟩⟩

/-- An instruction of one byte that changes the processor only, and goes on. -/
theorem exists_executes_single {f : Cpu → Cpu} (code : Bus.Gives [byte] w.cpu.pc w.bus s)
    (decoded : Instruction.decode byte = i) (bare : i.operandBytes = 0)
    (work : ∀ v : Circuit σ, exec i 0 v = v.mapCpu f)
    (goesOn : ∀ c, (f c).halted = c.halted ∧ (f c).pc = c.pc) :
    ∃ cpu, w.Executes byte ⟨cpu, s⟩ ∧ w.cpu.RunsOn 1 cpu := by
  obtain ⟨s₁, first, rfl⟩ := code
  have after := Executes.eq_exec ⟨running, opcode_of_read first, rfl⟩ decoded bare
  rw [work, fetch_of_read first] at after
  obtain ⟨halted, pc⟩ := goesOn (w.cpu.advance 1)
  exact ⟨_, ⟨running, opcode_of_read first, after.symm⟩, ⟨halted.trans running, pc⟩⟩

/-- STA keeps the accumulator at an address. -/
theorem exists_stores {a : UInt16} (code : Bus.Gives [0x32, loByte a, hiByte a] w.cpu.pc w.bus s) :
    ∃ cpu, w.Passes ⟨cpu, Bus.write a cpu.a s⟩ ∧ cpu.a = w.cpu.a ∧ w.cpu.RunsOn 3 cpu := by
  obtain ⟨s₁, first, s₂, low, s₃, high, rfl⟩ := code
  have decoded : Instruction.ofByte 0x32 = .sta := Instruction.ofByte_eq_decode _
  have opcode : w.opcode ∈ Instruction.sta.bytes := opcode_of_read first ▸ List.mem_singleton_self _
  have after : w.step.2 =
      ⟨((w.cpu.advance 1).advance 1).advance 1, Bus.write a w.cpu.a s⟩ := by
    rw [step, if_neg (Bool.not_eq_true _ ▸ running), stepRunning_of_read_word first decoded rfl low high,
      word_hiByte_loByte]
    rfl
  have pc : w.cpu.pc + 1 + 1 + 1 = w.cpu.pc + 3 := by
    rw [UInt16.add_assoc, UInt16.add_assoc]
    rfl
  exact ⟨_, ⟨.sta, opcode, List.not_mem_nil, after.symm⟩, rfl, ⟨running, pc⟩⟩

end Pieces

end Circuit

/-! ### Where programs are found -/

/-- From memory of the board the bytes are read that stand there. -/
theorem Board.gives_of_read {code : List UInt8} {a : UInt16} {s : Board}
    (h : ∀ (k : Nat) (hk : k < code.length), s.memory.read (a + UInt16.ofNat k) = code[k]) :
    Bus.Gives code a s s := by
  induction code generalizing a with
  | nil => rfl
  | cons b code ih =>
    have first : s.memory.read a = b := by simpa using h 0 (Nat.succ_pos _)
    refine ⟨s, congrArg (·, s) first, ih fun k hk => ?_⟩
    rw [add_one_add_ofNat]
    exact h (k + 1) (Nat.succ_lt_succ hk)

/-- A tape, of which each byte is read once, one after the other, wherever it is read. -/
structure Tape where
  /-- What has not been read yet. -/
  bytes : List UInt8

instance : Bus Tape where
  read _ t := (t.bytes.headD 0, ⟨t.bytes.tail⟩)
  write _ _ t := t
  input _ t := (0, t)
  output _ _ t := t

/-- The tape with a program for each of many bytes. -/
def Tape.forEach {β : Type} (code : UInt8 → β → List UInt8) (items : List (UInt8 × β)) : Tape :=
  ⟨items.flatMap fun item => code item.1 item.2⟩

theorem Tape.gives (bs rest : List UInt8) (a : UInt16) : Bus.Gives bs a (⟨bs ++ rest⟩ : Tape) ⟨rest⟩ := by
  induction bs generalizing a with
  | nil => rfl
  | cons b bs ih => exact ⟨⟨bs ++ rest⟩, rfl, ih (a + 1)⟩

namespace Circuit

/-- **One circuit works on any number of bytes** if some program works on any byte: it is given the
programs for all of them on a tape. -/
theorem exists_works {β : Type} {Work : β → Circuit Tape → Circuit Tape → Prop}
    {code : UInt8 → β → List UInt8}
    (able : ∀ {w : Circuit Tape} {t : Tape} (x : UInt8) (y : β), w.cpu.halted = false →
      Bus.Gives (code x y) w.cpu.pc w.bus t →
        ∃ v cpu, w.Loads x v ∧ Work y v ⟨cpu, t⟩ ∧ cpu.halted = false)
    {cpu : Cpu} (running : cpu.halted = false) (items : List (UInt8 × β)) :
    ∃ zs w', Works Work ⟨cpu, Tape.forEach code items⟩ items zs w' := by
  induction items generalizing cpu with
  | nil => exact ⟨[], _, .done .refl⟩
  | cons item items ih =>
    -- What has been read is gone from the tape, which leaves the programs for the other bytes.
    have given := Tape.gives (code item.1 item.2) (Tape.forEach code items).bytes cpu.pc
    obtain ⟨v, cpu', load, did, running'⟩ := able (w := ⟨cpu, _⟩) item.1 item.2 running given
    obtain ⟨zs, w', more⟩ := ih running'
    exact ⟨_, w', .byte .refl load did more⟩

/-- Numbers of any length are added, and subtracted, on one circuit. -/
theorem exists_works_combines (op : AluOp) {cpu : Cpu} (running : cpu.halted = false)
    (items : List (UInt8 × UInt8)) :
    ∃ zs w', Works (Combines op)
      ⟨cpu, Tape.forEach (fun x y => [0x3E, x] ++ [0xC6 + 8 * op.field, y]) items⟩ items zs w' := by
  refine exists_works (fun x y running code => ?_) running items
  obtain ⟨t, first, second⟩ := Bus.Gives.exists_append code
  obtain ⟨cpu, load, on⟩ := exists_loads running first
  obtain ⟨cpu', did, on'⟩ :=
    exists_combines_immediate (w := ⟨cpu, t⟩) on.running (second _ on.pc)
  exact ⟨_, cpu', load, did, on'.running⟩

/-- Numbers of any length are rotated on one circuit, to either side. -/
theorem exists_works_executes {byte : UInt8} (rotation : byte = 0x17 ∨ byte = 0x1F) {cpu : Cpu}
    (running : cpu.halted = false) (items : List (UInt8 × Unit)) :
    ∃ zs w', Works (fun _ => Executes byte)
      ⟨cpu, Tape.forEach (fun x _ => [0x3E, x] ++ [byte]) items⟩ items zs w' := by
  refine exists_works (fun x y running code => ?_) running items
  obtain ⟨t, first, second⟩ := Bus.Gives.exists_append code
  obtain ⟨cpu, load, on⟩ := exists_loads running first
  obtain rfl | rfl := rotation
  · obtain ⟨cpu', did, on'⟩ := exists_executes_single (w := ⟨cpu, t⟩) (i := .ral) (f := Cpu.ral)
      on.running (second _ on.pc) rfl rfl (fun _ => rfl) fun _ => ⟨rfl, rfl⟩
    exact ⟨_, cpu', load, did, on'.running⟩
  · obtain ⟨cpu', did, on'⟩ := exists_executes_single (w := ⟨cpu, t⟩) (i := .rar) (f := Cpu.rar)
      on.running (second _ on.pc) rfl rfl (fun _ => rfl) fun _ => ⟨rfl, rfl⟩
    exact ⟨_, cpu', load, did, on'.running⟩

end Circuit

end Cabinet
