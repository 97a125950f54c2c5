import Cabinet.Proofs.Machine.Restore
/-!
# Saving and loading

A machine that loads what another machine of the same chips has saved is from then on that machine:
every sequence of operations gives the same answers on both and leaves them in the same state. Only
the address map is not saved, and no operation but the observation looks at it.
-/

namespace Cabinet

theorem Shifter.offsetOf_ofNat (i : Fin 8) : offsetOf (UInt8.ofNat i) = i := by
  apply Fin.ext
  show i.val % 256 % 8 = i.val
  omega

namespace Machine

variable {rom : Block} {checksums : List UInt32} {m n : Machine}

/-! ### What is saved is what is loaded -/

/-- What a sound machine records passes the check. -/
theorem Sound.validate_capture (h : m.Sound rom checksums) : m.capture.validate = .ok () := by
  obtain ⟨ram, hr⟩ := h.memory
  refine SaveState.validate_eq_ok_iff.2 ⟨⟨m.pixels.size_toArray, ?_⟩, h.pending⟩
  show m.ram.size = _
  rw [ram_of_memory hr, ram.property]
  rfl

/-- Of two sound machines, one that takes the record of the other is the other, but for the map. -/
theorem Sound.put_capture (hm : m.Sound rom checksums) (hn : n.Sound rom checksums) :
    n.put m.capture (SaveState.size_pixels_of_validate hm.validate_capture) = m.setMap n.map := by
  obtain ⟨ram, hr⟩ := hm.memory
  obtain ⟨ram', hr'⟩ := hn.memory
  have cpu : Cpu.ofSnapshot m.capture.cpu = m.circuit.cpu := Cpu.ofSnapshot_snapshot _
  have shifter : Shifter.ofRecord m.capture.shiftRegister m.capture.shiftOffset = m.board.shifter :=
    congrArg _ (Shifter.offsetOf_ofNat m.board.shifter.offset)
  have memory : n.board.memory.overwrite Board.ramBase 0 m.capture.ram = m.board.memory := by
    rw [board, hr', AddressSpace.overwrite_ramBase_ofBlocks, board, hr]
    show AddressSpace.ofBlocks rom (ram'.overwrite 0 m.ram) = _
    rw [ram_of_memory hr, Block.overwrite_zero]
  have sums : n.checksums = m.checksums := hn.checksums_eq.trans hm.checksums_eq.symm
  unfold Machine.put
  rw [cpu, shifter, memory, sums]
  rfl

theorem Sound.load_save (hm : m.Sound rom checksums) (hn : n.Sound rom checksums) :
    n.load m.save = .ok (m.setMap n.map) := by
  rw [save, load_of_ok (SaveState.ofBytes_toBytes hm.validate_capture), hm.put_capture hn]

/-! ### Machines that differ in their map -/

theorem setMap_map (m : Machine) : m.setMap m.map = m := rfl

theorem restore_setMap (m : Machine) (map : Option AddressMap) (s : SaveState) :
    (m.setMap map).restore s = (m.restore s).map (·.setMap map) := by
  cases hs : s.validate with
  | error e => rw [restore_of_error hs, restore_of_error hs]; rfl
  | ok u => rw [restore_of_ok hs, restore_of_ok hs]; rfl

theorem load_setMap (m : Machine) (map : Option AddressMap) (b : ByteArray) :
    (m.setMap map).load b = (m.load b).map (·.setMap map) := by
  cases hb : SaveState.ofBytes b with
  | error e => rw [load_of_error hb, load_of_error hb]; rfl
  | ok s => rw [load_of_ok hb, load_of_ok hb]; rfl

theorem settle_setMap (m : Machine) (map : Option AddressMap) (x : Except SaveStateError Machine) :
    (m.setMap map).settle (x.map (·.setMap map)) =
      ((m.settle x).1, (m.settle x).2.setMap map) := by
  cases x <;> rfl

/-- **No operation looks at the map**: it answers the same, and leaves the same state but for the
map. -/
theorem exists_perform_setMap (m : Machine) (map : Option AddressMap) (op : Operation) :
    ∃ map', (m.setMap map).perform op = ((m.perform op).1, (m.perform op).2.setMap map') := by
  cases op with
  | setMap map' => exact ⟨map', rfl⟩
  | setInput id pressed =>
    refine ⟨map, ?_⟩
    simp only [perform, setInput]
    split <;> rfl
  | load b => exact ⟨map, by rw [perform, perform, load_setMap, settle_setMap]⟩
  | restore s => exact ⟨map, by rw [perform, perform, restore_setMap, settle_setMap]⟩
  | _ => exact ⟨map, rfl⟩

theorem exists_performAll_setMap (m : Machine) (map : Option AddressMap) (ops : List Operation) :
    ∃ map', (m.setMap map).performAll ops =
      ((m.performAll ops).1, (m.performAll ops).2.setMap map') := by
  induction ops generalizing m map with
  | nil => exact ⟨map, rfl⟩
  | cons op ops ih =>
    obtain ⟨map₁, h₁⟩ := exists_perform_setMap m map op
    obtain ⟨map₂, h₂⟩ := ih (m.perform op).2 map₁
    refine ⟨map₂, ?_⟩
    simp only [performAll]
    rw [h₁]
    simp only [h₂]

/-- **A machine that loads what another one of the same chips has saved goes on as that one.** After
loading it is the other one, but for its map; every further sequence of operations gives the same
answers on both and leaves them alike, and if both then have the same map, they show the same. -/
theorem load_save_goes_on {chips : Chips} (hm : m.Reachable chips) (hn : n.Reachable chips) :
    ∃ n', n.load m.save = .ok n' ∧ n' = { m with map := n.map } ∧
      ∀ ops, (n'.performAll ops).1 = (m.performAll ops).1 ∧
        (n'.performAll ops).2 = { (m.performAll ops).2 with map := (n'.performAll ops).2.map } ∧
        ((n'.performAll ops).2.map = (m.performAll ops).2.map →
          (n'.performAll ops).2 = (m.performAll ops).2 ∧
            (n'.performAll ops).2.observe = (m.performAll ops).2.observe) := by
  obtain ⟨rom, checksums, sound⟩ := exists_sound chips
  refine ⟨m.setMap n.map, (sound hm).load_save (sound hn), rfl, fun ops => ?_⟩
  obtain ⟨map, h⟩ := exists_performAll_setMap m n.map ops
  rw [h]
  refine ⟨rfl, rfl, fun same => ?_⟩
  have equal : (m.performAll ops).2.setMap map = (m.performAll ops).2 := by
    rw [show map = (m.performAll ops).2.map from same, setMap_map]
  exact ⟨equal, congrArg observe equal⟩

/-- A machine at play, without a map and with switches of its own. -/
def played : Machine :=
  (idle.performAll [.stepFrame, .setInput 3 true, .setDips ⟨1, 2, 3⟩, .setMap none]).2

theorem idle_goes_on_as_played :
    played.Reachable idleChips ∧ idle.Reachable idleChips ∧
      ∃ n', idle.load played.save = .ok n' ∧ n'.board.dips = ⟨1, 2, 3⟩ ∧
        (n'.performAll [.stepFrame, .load played.save, .stepCycles 5]).1 =
          (played.performAll [.stepFrame, .load played.save, .stepCycles 5]).1 ∧
        (n'.performAll [.stepFrame, .setMap none]).2.observe =
          (played.performAll [.stepFrame, .setMap none]).2.observe := by
  have start : played.Reachable idleChips := reachable_idle.performAll _
  obtain ⟨n', loaded, equal, further⟩ := load_save_goes_on start reachable_idle
  refine ⟨start, reachable_idle, n', loaded, ?_, (further _).1, ((further _).2.2 ?_).2⟩
  · rw [equal]
    rfl
  · show (none : Option AddressMap) = none
    rfl

end Machine

end Cabinet
