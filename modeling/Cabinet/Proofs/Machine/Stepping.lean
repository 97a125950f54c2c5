import Cabinet.Proofs.Board.Access
import Cabinet.Proofs.Machine.Restore
/-!
# What running a machine leaves alone

The program in the chips is arbitrary, and so are the places it writes to. Still a frame or a burst
changes nothing of a machine but the processor, the shifter, the bank that can be written and the two
counters (`Machine.Ran`, one lemma for each of the two operations), so any number of them changes
nothing else. The program reads as before, above the two banks nothing is read, and only a frame
counts as one (`Machine.run_leaves_alone`).
-/

namespace Cabinet

/-- The operation lets the processor run. -/
def Operation.runs : Operation → Bool
  | .stepFrame | .stepCycles _ => true
  | _ => false

/-- The operation lets the counters go on: it neither starts anew nor puts a record back. -/
def Operation.goesOn : Operation → Bool
  | .reset | .load _ | .restore _ => false
  | _ => true

theorem Operation.goesOn_of_runs (op : Operation) (h : op.runs = true) : op.goesOn = true := by
  cases op with
  | stepFrame | stepCycles => rfl
  | _ => cases h

/-- The operation runs a frame. -/
def Operation.isFrame : Operation → Bool
  | .stepFrame => true
  | _ => false

namespace Machine

/-- The machine with the processor, the shifter, the bank that can be written and the counters of
`n`. -/
def withRunOf (m n : Machine) : Machine :=
  { m with
    circuit := {
      cpu := n.circuit.cpu
      bus := { m.board with
        memory := m.board.memory.overwrite Board.ramBase 0 n.ram
        shifter := n.board.shifter } }
    frames := n.frames
    cycles := n.cycles }

theorem latch_withRunOf (m n : Machine) : (m.withRunOf n).board.latch = m.board.latch := rfl

/-- What a run from `m` to `n` with the program `rom` leaves alone. -/
structure Ran (rom : Block) (m n : Machine) : Prop where
  /-- The program was in memory before. -/
  before : ∃ ram, m.circuit.bus.memory = .ofBlocks rom ram
  /-- The program is in memory afterwards. -/
  after : ∃ ram, n.circuit.bus.memory = .ofBlocks rom ram
  /-- The buttons are as they were. -/
  latch_eq : n.board.latch = m.board.latch
  /-- The switches are as they were. -/
  dips_eq : n.board.dips = m.board.dips
  /-- The picture is as it was. -/
  pixels_eq : n.pixels = m.pixels
  /-- The pacing is as it was. -/
  pacing_eq : n.pacing = m.pacing
  /-- The checksums are as they were. -/
  checksums_eq : n.checksums = m.checksums
  /-- The address map is as it was. -/
  map_eq : n.map = m.map

variable {rom : Block} {checksums : List UInt32} {m n k : Machine}

theorem Ran.refl (h : ∃ ram, m.circuit.bus.memory = .ofBlocks rom ram) : Ran rom m m :=
  ⟨h, h, rfl, rfl, rfl, rfl, rfl, rfl⟩

theorem Ran.trans (h : Ran rom m n) (h' : Ran rom n k) : Ran rom m k where
  before := h.before
  after := h'.after
  latch_eq := h'.latch_eq.trans h.latch_eq
  dips_eq := h'.dips_eq.trans h.dips_eq
  pixels_eq := h'.pixels_eq.trans h.pixels_eq
  pacing_eq := h'.pacing_eq.trans h.pacing_eq
  checksums_eq := h'.checksums_eq.trans h.checksums_eq
  map_eq := h'.map_eq.trans h.map_eq

/-! ### One operation -/

theorem Ran.stepFrame (h : ∃ ram, m.circuit.bus.memory = .ofBlocks rom ram) :
    Ran rom m m.stepFrame.2 where
  before := h
  after := stepFrame_keeps (keeps_program rom) h
  latch_eq := stepFrame_keeps (Board.keeps_latch m.board.latch) rfl
  dips_eq := stepFrame_keeps (Board.keeps_dips m.board.dips) rfl
  pixels_eq := rfl
  pacing_eq := rfl
  checksums_eq := rfl
  map_eq := rfl

theorem Ran.stepCycles (h : ∃ ram, m.circuit.bus.memory = .ofBlocks rom ram) (budget : UInt32) :
    Ran rom m (m.stepCycles budget).2 where
  before := h
  after := Circuit.execute_keeps (keeps_program rom) h budget
  latch_eq := Circuit.execute_keeps (Board.keeps_latch m.board.latch) rfl budget
  dips_eq := Circuit.execute_keeps (Board.keeps_dips m.board.dips) rfl budget
  pixels_eq := rfl
  pacing_eq := rfl
  checksums_eq := rfl
  map_eq := rfl

theorem Ran.perform (h : ∃ ram, m.circuit.bus.memory = .ofBlocks rom ram) {op : Operation}
    (hop : op.runs = true) : Ran rom m (m.perform op).2 := by
  cases op with
  | stepFrame => exact .stepFrame h
  | stepCycles budget => exact .stepCycles h budget
  | _ => cases hop

/-! ### Any number of operations -/

theorem Ran.performAll (h : ∃ ram, m.circuit.bus.memory = .ofBlocks rom ram) {ops : List Operation}
    (hops : ∀ op ∈ ops, op.runs = true) : Ran rom m (m.performAll ops).2 := by
  induction ops generalizing m with
  | nil => exact .refl h
  | cons op ops ih =>
    have first := Ran.perform h (hops op (List.mem_cons_self ..))
    exact first.trans (ih first.after fun op hop => hops op (List.mem_cons_of_mem _ hop))

/-- An operation that lets the counters go on counts one frame if it runs one. -/
theorem frames_perform {op : Operation} (hop : op.goesOn = true) :
    (m.perform op).2.frames = m.frames + if op.isFrame then 1 else 0 := by
  cases op with
  | stepFrame => rfl
  | setInput id pressed =>
    refine Eq.trans ?_ (UInt64.add_zero m.frames).symm
    show (m.setInput id pressed).frames = m.frames
    unfold setInput
    split <;> rfl
  | updatePixels =>
    refine Eq.trans ?_ (UInt64.add_zero m.frames).symm
    show m.updatePixels.frames = m.frames
    unfold updatePixels
    rfl
  | stepCycles | setInputBits | setDips | setSpeed | setUncapped | write | setMap =>
    exact (UInt64.add_zero m.frames).symm
  | reset | load | restore => cases hop

theorem frames_performAll_of_goesOn {ops : List Operation} (hops : ∀ op ∈ ops, op.goesOn = true) :
    (m.performAll ops).2.frames = m.frames + UInt64.ofNat (ops.countP Operation.isFrame) := by
  induction ops generalizing m with
  | nil => exact (UInt64.add_zero m.frames).symm
  | cons op ops ih =>
    have rest : ∀ op ∈ ops, op.goesOn = true := fun op hop => hops op (List.mem_cons_of_mem _ hop)
    rw [Machine.performAll, ih rest, frames_perform (hops op (List.mem_cons_self ..)),
      List.countP_cons, UInt64.add_assoc]
    congr 1
    cases op.isFrame with
    | true => rw [if_pos rfl, if_pos rfl, UInt64.ofNat_add, UInt64.add_comm]; rfl
    | false => exact UInt64.zero_add _

/-- Only frames are counted, each as one. -/
theorem frames_performAll {ops : List Operation} (hops : ∀ op ∈ ops, op.runs = true) :
    (m.performAll ops).2.frames = m.frames + UInt64.ofNat (ops.countP Operation.isFrame) :=
  frames_performAll_of_goesOn fun op hop => op.goesOn_of_runs (hops op hop)

/-! ### What is left alone -/

/-- Nothing but the processor, the shifter, the bank that can be written and the counters differs. -/
theorem Ran.eq_withRunOf (h : Ran rom m n) : n = m.withRunOf n := by
  obtain ⟨ram, hm⟩ := h.before
  obtain ⟨ram', hn⟩ := h.after
  have memory : m.board.memory.overwrite Board.ramBase 0 n.ram = n.board.memory := by
    rw [ram_of_memory hn, board, hm, AddressSpace.overwrite_ramBase_ofBlocks, Block.overwrite_zero,
      board, hn]
  simp only [withRunOf, memory, ← h.latch_eq, ← h.dips_eq, ← h.pixels_eq, ← h.pacing_eq,
    ← h.checksums_eq, ← h.map_eq]
  rfl

theorem Ran.read_program (h : Ran rom m n) {a : UInt16} (ha : a.toNat < 0x2000) :
    n.read a = m.read a :=
  (read_of_memory h.after ha).trans (read_of_memory h.before ha).symm

theorem read_of_le (h : ∃ ram, m.circuit.bus.memory = .ofBlocks rom ram) {a : UInt16}
    (ha : 0x4000 ≤ a.toNat) : m.read a = 0 := by
  obtain ⟨ram, hm⟩ := h
  rw [read, board, hm, AddressSpace.read_ofBlocks, if_neg (by omega),
    Bytes.get_of_le (by rw [ram.property]; omega)]

/-- **Running a machine changes nothing but the processor, the shifter, the bank that can be written
and the counters.** Whatever the program is, after any number of frames and bursts the program reads
as before, nothing is read above the two banks, and the frames are counted, a burst not as one. -/
theorem run_leaves_alone {chips : Chips} (hm : m.Reachable chips) {ops : List Operation}
    (hops : ∀ op ∈ ops, op.runs = true) :
    (m.performAll ops).2 = m.withRunOf (m.performAll ops).2 ∧
      (∀ a : UInt16, a.toNat < 0x2000 → (m.performAll ops).2.read a = m.read a) ∧
      (∀ a : UInt16, 0x4000 ≤ a.toNat → m.read a = 0 ∧ (m.performAll ops).2.read a = 0) ∧
      (m.performAll ops).2.frames = m.frames + UInt64.ofNat (ops.countP Operation.isFrame) ∧
      ∀ budget, (m.stepCycles budget).2.frames = m.frames := by
  obtain ⟨rom, checksums, sound⟩ := exists_sound chips
  have ran := Ran.performAll (sound hm).memory hops
  exact ⟨ran.eq_withRunOf, fun a => ran.read_program,
    fun a ha => ⟨read_of_le ran.before ha, read_of_le ran.after ha⟩, frames_performAll hops,
    fun budget => rfl⟩

/-- A program that writes to itself, above the two banks and to ports, over and over: MVI A, 55;
STA 0001; STA 5000; OUT 1; OUT 4; JMP 0001. -/
def meddling : List UInt8 :=
  [0x3E, 0x55, 0x32, 0x01, 0x00, 0x32, 0x00, 0x50, 0xD3, 0x01, 0xD3, 0x04, 0xC3, 0x01, 0x00]

theorem meddling_leaves_alone :
    (coded meddling).Reachable (codeChips meddling) ∧
      (∀ op ∈ [Operation.stepFrame, .stepCycles 100, .stepFrame], op.runs = true) ∧
      ((coded meddling).performAll [.stepFrame, .stepCycles 100, .stepFrame]).2.read 0x0001 =
        (coded meddling).read 0x0001 ∧
      ((coded meddling).performAll [.stepFrame, .stepCycles 100, .stepFrame]).2.read 0x5000 = 0 ∧
      ((coded meddling).performAll [.stepFrame, .stepCycles 100, .stepFrame]).2.board.latch =
        (coded meddling).board.latch ∧
      ((coded meddling).performAll [.stepFrame, .stepCycles 100, .stepFrame]).2.frames =
        (coded meddling).frames + 2 := by
  have start : (coded meddling).Reachable (codeChips meddling) := .built (built_coded meddling)
  have runs : ∀ op ∈ [Operation.stepFrame, .stepCycles 100, .stepFrame], op.runs = true := by
    simp [Operation.runs]
  obtain ⟨rest, program, above, frames, -⟩ := run_leaves_alone start runs
  refine ⟨start, runs, program 0x0001 (by decide), (above 0x5000 (by decide)).2, ?_, frames⟩
  rw [rest, latch_withRunOf]

end Machine

end Cabinet
