import Cabinet.Proofs.SaveState.RoundTrip
/-!
# Reading section by section

`SaveState.ofBytes` finds every field at its place in the whole byte string, and a byte behind the end
would read as zero. The reader of this module takes nothing for granted. It cuts off one section after
the other, each from where the last one ended, looks up the fields by their places in the section, and
stops (`Stop.astray`) as soon as it wants bytes that are not there: a section that it cuts off without
having them, or a byte behind the end of a section.

It never goes astray: on every byte string it stops with the reason for which the string is refused, or
finds the record that is read (`Verdict.ofSections_eq`).
-/

namespace Cabinet.SaveState

/-! ### What is looked at -/

/-- The four bytes that a byte string begins with. -/
def markOf (b : ByteArray) : List UInt8 := [Bytes.get b 0, Bytes.get b 1, Bytes.get b 2, Bytes.get b 3]

/-- The version in the header. -/
def versionOf (b : ByteArray) : UInt32 := Little.word32 b 4

/-- The pending cycles of the processor. -/
def pendingOf (b : ByteArray) : UInt32 := Little.word32 b 22

/-- The header is that of a save state: it says SI80, in version 1. -/
structure Headed (b : ByteArray) : Prop where
  mark : markOf b = [0x53, 0x49, 0x38, 0x30]
  version : versionOf b = 1

/-- The processor is one that can be: it has no pending cycles, or those of one interrupt. -/
def Chargeable (b : ByteArray) : Prop := pendingOf b = 0 ∨ pendingOf b = 11

instance (b : ByteArray) : Decidable (Chargeable b) := inferInstanceAs (Decidable (_ ∨ _))

/-! ### A reader that takes nothing for granted -/

/-- Why a reader stops. -/
inductive Stop where
  /-- The bytes are refused. -/
  | refused (e : SaveStateError)
  /-- It wants bytes that are not there. -/
  | astray
deriving DecidableEq, Inhabited

/-- A byte string, and how far it has been read. -/
structure Reader where
  /-- The whole byte string. -/
  bytes : ByteArray
  /-- Where the next section begins. -/
  position : Nat := 0

/-- The bytes between two positions. -/
def slice (b : ByteArray) (i j : Nat) : Except Stop ByteArray :=
  if i ≤ j ∧ j ≤ b.size then .ok (b.extract i j) else .error .astray

namespace Reader

/-- How many bytes are left. -/
def remaining (r : Reader) : Except Stop Nat :=
  if r.position ≤ r.bytes.size then .ok (r.bytes.size - r.position) else .error .astray

/-- Cuts off a section. -/
def take (r : Reader) (title : String) (length : Nat) : Except Stop (ByteArray × Reader) := do
  let available ← r.remaining
  if available < length then throw (.refused (.truncated title length available))
  let c ← slice r.bytes r.position (r.position + length)
  return (c, { r with position := r.position + length })

end Reader

/-- A byte of a section. -/
def byteAt (b : ByteArray) (i : Nat) : Except Stop UInt8 :=
  if h : i < b.size then .ok b[i] else .error .astray

/-- The number in `width` bytes of a section from position `i` on. -/
def numberAt (c : ByteArray) : Nat → Nat → Except Stop Nat
  | 0, _ => .ok 0
  | width + 1, i => do
    let low ← byteAt c i
    let rest ← numberAt c width (i + 1)
    return low.toNat + 256 * rest

/-- The processor in its section. -/
def cpuIn (c : ByteArray) : Except Stop Cpu.Snapshot := do
  return {
    a := ← byteAt c 0
    b := ← byteAt c 1
    c := ← byteAt c 2
    d := ← byteAt c 3
    e := ← byteAt c 4
    h := ← byteAt c 5
    l := ← byteAt c 6
    f := ← byteAt c 7
    sp := .ofNat (← numberAt c 2 8)
    pc := .ofNat (← numberAt c 2 10)
    inte := (← byteAt c 12) != 0
    halted := (← byteAt c 13) != 0
    pending := .ofNat (← numberAt c 4 14) }

/-- The picture in its section. -/
def pixelsIn (c : ByteArray) : Except Stop (Array UInt32) := do
  let words ← (List.range (c.size / 4)).mapM fun i => numberAt c 4 (4 * i)
  return (words.map UInt32.ofNat).toArray

/-- The record in its sections, of which the processor has been read. -/
def recordIn (cpu : Cpu.Snapshot) (machine pixels ram : ByteArray) : Except Stop SaveState := do
  return {
    cpu
    shiftRegister := .ofNat (← numberAt machine 2 0)
    shiftOffset := ← byteAt machine 2
    input := ← byteAt machine 3
    dips := ⟨← byteAt machine 4, ← byteAt machine 5, ← byteAt machine 6⟩
    frames := .ofNat (← numberAt machine 8 7)
    cycles := .ofNat (← numberAt machine 8 15)
    pacing := {
      headless := (← byteAt machine 23) != 0
      speed := ⟨.ofNat (← numberAt machine 4 24)⟩
      uncapped := (← byteAt machine 28) != 0 }
    pixels := ← pixelsIn pixels
    ram }

/-- Reads the header, which is only compared. -/
def Reader.header (r : Reader) : Except Stop Reader := do
  let (c, r) ← r.take "header" 8
  let found ← (List.range 4).mapM (byteAt c)
  if found ≠ magic then throw (.refused (.badMagic found))
  let number := UInt32.ofNat (← numberAt c 4 4)
  if number ≠ version then throw (.refused (.unsupportedVersion number))
  return r

/-- Reads the processor. -/
def Reader.cpu (r : Reader) : Except Stop (Cpu.Snapshot × Reader) := do
  let (c, r) ← r.take "cpu" 18
  let cpu ← cpuIn c
  if ¬(cpu.pending = 0 ∨ cpu.pending = interruptCycles) then
    throw (.refused (.pendingCycles cpu.pending))
  return (cpu, r)

/-- Reads what comes behind the processor. -/
def Reader.record (cpu : Cpu.Snapshot) (r : Reader) : Except Stop SaveState := do
  let (machine, r) ← r.take "machine" 29
  let (pixels, r) ← r.take "pixel buffer" (4 * pixelCount)
  let (ram, r) ← r.take "ram" Board.ramSize
  let extra ← r.remaining
  if 0 < extra then throw (.refused (.trailingData extra))
  recordIn cpu machine pixels ram

/-- Reads a save state section by section. -/
def ofSections (b : ByteArray) : Except Stop SaveState := do
  let r ← Reader.header { bytes := b }
  let (cpu, r) ← r.cpu
  r.record cpu

/-! ### Inside a section -/

variable {b : ByteArray} {start stop length width i : Nat}

theorem byteAt_extract (h : stop ≤ b.size) (hi : start + i < stop) :
    byteAt (b.extract start stop) i = .ok (Bytes.get b (start + i)) := by
  have inside : i < (b.extract start stop).size := by
    rw [ByteArray.size_extract]
    omega
  rw [byteAt, dif_pos inside, ← Bytes.get_of_lt inside, Bytes.get_extract, if_pos hi]

theorem numberAt_extract (h : stop ≤ b.size) (hi : start + i + width ≤ stop) :
    numberAt (b.extract start stop) width i = .ok (Little.decode b width (start + i)) := by
  induction width generalizing i with
  | zero => rfl
  | succ width ih =>
    rw [numberAt, byteAt_extract h (by omega), ih (by omega)]
    rfl

theorem cpuIn_extract (h : 26 ≤ b.size) : cpuIn (b.extract 8 26) = .ok (cpuAt b) := by
  have byte {i : Nat} (hi : 8 + i < 26) : byteAt (b.extract 8 26) i = .ok (Bytes.get b (8 + i)) :=
    byteAt_extract h hi
  have number {width i : Nat} (hi : 8 + i + width ≤ 26) :
      numberAt (b.extract 8 26) width i = .ok (Little.decode b width (8 + i)) :=
    numberAt_extract h hi
  simp only [cpuIn, byte, number, Nat.reduceLT, Nat.reduceAdd, Nat.reduceLeDiff]
  rfl

theorem mapM_eq_ok {ε α β : Type} {f : α → Except ε β} {g : α → β} {xs : List α}
    (h : ∀ x ∈ xs, f x = .ok (g x)) : xs.mapM f = .ok (xs.map g) :=
  mapM_eq_ok_iff.2 (List.forall₂_map_right_iff.2 (List.forall₂_same.2 h))

theorem pixelsIn_extract {count : Nat} (h : stop ≤ b.size) (hs : stop = start + 4 * count) :
    pixelsIn (b.extract start stop) =
      .ok (.ofFn fun i : Fin count => Little.word32 b (start + 4 * i)) := by
  have size : (b.extract start stop).size / 4 = count := by
    rw [ByteArray.size_extract]
    omega
  have words : (List.range count).mapM (fun i => numberAt (b.extract start stop) 4 (4 * i)) =
      .ok ((List.range count).map fun i => Little.decode b 4 (start + 4 * i)) := by
    refine mapM_eq_ok fun i hi => numberAt_extract h ?_
    have := List.mem_range.1 hi
    omega
  rw [pixelsIn, size, words]
  refine congrArg Except.ok (Array.ext (by simp) fun i _ _ => ?_)
  simp [Little.word32]

theorem recordIn_extract (h : 237623 ≤ b.size) :
    recordIn (cpuAt b) (b.extract 26 55) (b.extract 55 229431) (b.extract 229431 237623) =
      .ok (recordAt b) := by
  have inside : 55 ≤ b.size := by omega
  have byte {i : Nat} (hi : 26 + i < 55) : byteAt (b.extract 26 55) i = .ok (Bytes.get b (26 + i)) :=
    byteAt_extract inside hi
  have number {width i : Nat} (hi : 26 + i + width ≤ 55) :
      numberAt (b.extract 26 55) width i = .ok (Little.decode b width (26 + i)) :=
    numberAt_extract inside hi
  have pixels : pixelsIn (b.extract 55 229431) =
      .ok (.ofFn fun i : Fin pixelCount => Little.word32 b (55 + 4 * i)) :=
    pixelsIn_extract (by omega) rfl
  simp only [recordIn, byte, number, pixels, Nat.reduceLT, Nat.reduceAdd, Nat.reduceLeDiff]
  rfl

/-! ### From section to section -/

variable {title : String}

theorem remaining_of_le (h : start ≤ b.size) : Reader.remaining ⟨b, start⟩ = .ok (b.size - start) :=
  if_pos h

theorem take_of_le (h : start + length ≤ b.size) :
    Reader.take ⟨b, start⟩ title length =
      .ok (b.extract start (start + length), ⟨b, start + length⟩) := by
  have enough : ¬b.size - start < length := by omega
  have there : slice b start (start + length) = .ok (b.extract start (start + length)) :=
    if_pos ⟨Nat.le_add_right .., h⟩
  simp only [Reader.take, remaining_of_le (Nat.le_of_add_right_le h), bind, Except.bind, if_neg enough,
    there]
  rfl

theorem take_of_lt (hs : start ≤ b.size) (h : b.size < start + length) :
    Reader.take ⟨b, start⟩ title length =
      .error (.refused (.truncated title length (b.size - start))) := by
  have short : b.size - start < length := by omega
  simp only [Reader.take, remaining_of_le hs, bind, Except.bind, if_pos short]
  rfl

theorem Reader.header_eq (h : 8 ≤ b.size) :
    Reader.header ⟨b, 0⟩ =
      if markOf b ≠ [0x53, 0x49, 0x38, 0x30] then .error (.refused (.badMagic (markOf b)))
      else if versionOf b ≠ 1 then .error (.refused (.unsupportedVersion (versionOf b)))
      else .ok ⟨b, 8⟩ := by
  have taken : Reader.take ⟨b, 0⟩ "header" 8 = .ok (b.extract 0 8, ⟨b, 8⟩) := take_of_le h
  have mark : (List.range 4).mapM (byteAt (b.extract 0 8)) = .ok (markOf b) := by
    refine mapM_eq_ok (g := Bytes.get b) fun i hi => ?_
    have := List.mem_range.1 hi
    rw [byteAt_extract h (by omega), Nat.zero_add]
  have version : numberAt (b.extract 0 8) 4 4 = .ok (Little.decode b 4 4) :=
    numberAt_extract h (by omega)
  simp only [header, taken, bind, Except.bind, mark, version]
  rfl

theorem Reader.cpu_eq (h : 26 ≤ b.size) :
    Reader.cpu ⟨b, 8⟩ =
      if ¬Chargeable b then .error (.refused (.pendingCycles (pendingOf b)))
      else .ok (cpuAt b, ⟨b, 26⟩) := by
  have taken : Reader.take ⟨b, 8⟩ "cpu" 18 = .ok (b.extract 8 26, ⟨b, 26⟩) := take_of_le h
  simp only [cpu, taken, bind, Except.bind, cpuIn_extract h]
  rfl

theorem Reader.record_eq (h : 237623 ≤ b.size) :
    Reader.record (cpuAt b) ⟨b, 26⟩ =
      if 237623 < b.size then .error (.refused (.trailingData (b.size - 237623)))
      else .ok (recordAt b) := by
  have machine : Reader.take ⟨b, 26⟩ "machine" 29 = .ok (b.extract 26 55, ⟨b, 55⟩) :=
    take_of_le (by omega)
  have pixels : Reader.take ⟨b, 55⟩ "pixel buffer" 229376 =
      .ok (b.extract 55 229431, ⟨b, 229431⟩) := take_of_le (by omega)
  have ram : Reader.take ⟨b, 229431⟩ "ram" 8192 =
      .ok (b.extract 229431 237623, ⟨b, 237623⟩) := take_of_le h
  simp only [record, pixelCount_eq, Board.ramSize, machine, pixels, ram, bind, Except.bind,
    Nat.reduceMul, remaining_of_le h, recordIn_extract h, Nat.sub_pos_iff_lt]
  rfl

end Cabinet.SaveState
