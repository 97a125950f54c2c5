import Cabinet.Proofs.Machine.Independence
import Cabinet.Proofs.Machine.SaveLoad
/-!
# A reset forgets everything

Whatever has been done with a machine, bytes of any origin that it has loaded included, a reset leaves
the machine that would be built anew from the same chips with the settings it has then; only
interrupts are enabled, and the address map is kept (`Machine.reset_forgets`). Of its past a machine
passes on the program in memory and the checksums, and these are those of its chips as long as it is
operated at all (`Machine.Sound`). So nothing of the past of two machines is left but their settings
and maps.
-/

namespace Cabinet.Machine

variable {rom : Block} {checksums : List UInt32} {chips : Chips} {m n : Machine}

/-- The bank that can be written is cleared, and the program stays. -/
theorem Sound.memory_reset (h : m.Sound rom checksums) :
    m.reset.board.memory = .ofBlocks rom .zeros := by
  obtain ⟨ram, hm⟩ := h.memory
  show m.circuit.bus.memory.overwrite Board.ramBase 0 (Bytes.zeros Board.ramSize) = _
  rw [hm, AddressSpace.overwrite_ramBase_ofBlocks]
  exact congrArg _ (Block.overwrite_zero ram .zeros)

/-- What a reset leaves is new, but for the interrupts and the map. -/
theorem Sound.reset_eq (h : m.Sound rom checksums) :
    m.reset = { fresh rom checksums m.settings with circuit.cpu.inte := true, map := m.map } := by
  have memory := h.memory_reset
  have sums : m.checksums = checksums := h.checksums_eq
  show { m.reset with circuit.bus.memory := m.reset.board.memory } = _
  rw [memory, ← sums]
  rfl

/-- With the settings of a machine a new one can be built from its chips. -/
theorem Reachable.ofChips_settings {program : RomImage}
    (hp : programRom.loadImages chips.toList = .ok program) (settings : Settings) :
    ofChips chips settings =
      .ok (fresh (patched ⟨program.data, size_of_loadImages hp⟩) program.checksums settings) :=
  bind_eq_ok_iff.2 ⟨program, mapError_eq_ok_iff.2 hp, ofProgram_eq program _ settings⟩

theorem settings_reset (m : Machine) : m.reset.settings = m.settings := rfl

/-- **A reset forgets everything**: it leaves the machine that is built anew from the chips with the
settings of the old one, but with interrupts enabled and the old map. So a second reset changes nothing,
and two machines with the same chips, settings and map are the same after it, whatever has been done
with each; whatever is done then, they answer alike, show the same and stay the same. -/
theorem reset_forgets (hm : m.Reachable chips) :
    (∃ b, ofChips chips m.settings = .ok b ∧
      m.reset = { b with circuit.cpu.inte := true, map := m.map }) ∧
    m.reset.reset = m.reset ∧
    ∀ n : Machine, n.Reachable chips → n.settings = m.settings → n.map = m.map →
      n.reset = m.reset ∧ ∀ cs : List Call, n.reset.callAll cs = m.reset.callAll cs := by
  obtain ⟨program, hp⟩ := hm.exists_program
  have again : m.reset.reset = m.reset := by
    rw [(hm.sound hp).reset.reset_eq, settings_reset, (hm.sound hp).reset_eq]
  refine ⟨⟨_, Reachable.ofChips_settings hp m.settings, (hm.sound hp).reset_eq⟩, again, ?_⟩
  intro n hn settings map
  have same : n.reset = m.reset := by
    rw [(hn.sound hp).reset_eq, (hm.sound hp).reset_eq, settings, map]
  exact ⟨same, fun cs => by rw [same]⟩

/-- The machine `n` after it has loaded what `m` has saved, has run a frame and has got the map of `m`. -/
def reloaded (m n : Machine) : Machine :=
  ((n.perform (.load m.save)).2.perform .stepFrame).2.setMap m.map

theorem Reachable.reloaded (hn : n.Reachable chips) (m : Machine) :
    (reloaded m n).Reachable chips :=
  ((hn.perform (.load m.save)).perform .stepFrame).perform (.setMap m.map)

theorem map_setMap (m : Machine) (map : Option AddressMap) : (m.setMap map).map = map := rfl

theorem map_reloaded (m n : Machine) : (reloaded m n).map = m.map := map_setMap _ m.map

/-- It has the settings of `m`: they are saved, and a frame keeps them. -/
theorem settings_reloaded (hm : m.Reachable chips) (hn : n.Reachable chips) :
    (reloaded m n).settings = m.settings := by
  obtain ⟨rom, checksums, sound⟩ := exists_sound chips
  have loaded : (n.perform (.load m.save)).2 = m.setMap n.map := by
    rw [perform, (sound hm).load_save (sound hn)]
    rfl
  have dips : (m.setMap n.map).stepFrame.2.board.dips = m.board.dips :=
    stepFrame_keeps (Board.keeps_dips m.board.dips) rfl
  rw [Machine.reloaded, loaded]
  show Settings.mk m.pacing (m.setMap n.map).stepFrame.2.board.dips = m.settings
  rw [dips]
  rfl

theorem reloaded_forgets :
    played.Reachable idleChips ∧ (reloaded played idle).Reachable idleChips ∧
      (reloaded played idle).settings = played.settings ∧ (reloaded played idle).map = played.map ∧
      (reloaded played idle).reset = played.reset ∧
      (reloaded played idle).reset.callAll [.observe, .operate .stepFrame] =
        played.reset.callAll [.observe, .operate .stepFrame] ∧
      ∃ b, ofChips idleChips played.settings = .ok b ∧
        played.reset = { b with circuit.cpu.inte := true, map := played.map } := by
  have start : played.Reachable idleChips := reachable_idle.performAll _
  have other := reachable_idle.reloaded played
  have settings := settings_reloaded start reachable_idle
  have map := map_reloaded played idle
  obtain ⟨anew, -, alike⟩ := reset_forgets start
  obtain ⟨same, further⟩ := alike _ other settings map
  exact ⟨start, other, settings, map, same, further _, anew⟩

end Cabinet.Machine
