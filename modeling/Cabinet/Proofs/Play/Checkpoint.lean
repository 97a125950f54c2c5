import Cabinet.Proofs.Machine.SaveLoad
import Cabinet.Proofs.Play.Session
/-!
# Checkpoints

A session can be stopped after any frame, saved, and taken up again on another machine with the whole
schedule. The changes of the buttons that had been taken are given once more, all at the first frame;
but of those only the last one counts, and the latch shows it already (`Session.Consumed.latch`). So
nothing of the game, and nothing of what everybody sees, tells that the session was interrupted
(`Session.checkpoint_invisible`).
-/

namespace Cabinet

/-- Setting the buttons to what the latch shows changes nothing. -/
theorem Machine.latched_of_latch {m : Machine} {bits : UInt8} (h : m.board.latch = .ofBits bits) :
    m.latched (some bits) = m := by
  show { m with circuit.bus.latch := Latch.ofBits bits } = m
  rw [← h]
  rfl

theorem Machine.latch_latched (m : Machine) (bits : UInt8) :
    (m.latched (some bits)).board.latch = .ofBits bits := rfl

namespace Session

/-- Of the changes of the buttons the session has taken `passed`: they were due, and the latch shows
the last of them. -/
structure Consumed (events : List InputEvent) (s : Session) (passed : List InputEvent) : Prop where
  /-- The others are still to come. -/
  split : (Schedule.ofEvents events).pending = passed ++ s.schedule.pending
  /-- They were due. -/
  due : ∀ e ∈ passed, e.frame ≤ s.machine.frames
  /-- The latch shows the last one. -/
  latch : ∀ e, passed.getLast? = some e → s.machine.board.latch = .ofBits e.bits

variable {events passed : List InputEvent} {s : Session}

theorem consumed_nil (m : Machine) (events : List InputEvent) :
    Consumed events { machine := m, schedule := .ofEvents events } [] where
  split := rfl
  due e he := by cases he
  latch e he := by cases he

/-- A frame takes what is due at it. -/
theorem Consumed.playFrame (h : Consumed events s passed) (every : UInt64)
    (hcount : s.machine.frames.toNat + 1 < UInt64.size) :
    Consumed events (s.playFrame every) (passed ++ s.schedule.taken s.machine.frames) where
  split := by
    rw [schedule_playFrame, schedule_applyInput, List.append_assoc, Schedule.taken_append_due, h.split]
  due e he := by
    have due : e.frame ≤ s.machine.frames := by
      rcases List.mem_append.1 he with he | he
      · exact h.due e he
      · exact Schedule.le_of_mem_taken he
    rw [UInt64.le_iff_toNat_le] at due ⊢
    rw [toNat_frames_playFrame hcount]
    exact Nat.le_succ_of_le due
  latch e he := by
    rw [machine_playFrame, Machine.latch_stepFrame, machine_applyInput, Schedule.bits_due]
    rw [List.getLast?_append] at he
    cases ht : (s.schedule.taken s.machine.frames).getLast? with
    | none =>
      rw [ht, Option.none_or] at he
      exact h.latch e he
    | some e' =>
      rw [ht, Option.some_or] at he
      cases he
      exact Machine.latch_latched ..

theorem Consumed.play (h : Consumed events s passed) (every : UInt64) (n : Nat)
    (hcount : s.machine.frames.toNat + n < UInt64.size) :
    ∃ passed', Consumed events (play every n s) passed' := by
  induction n generalizing s passed with
  | zero => exact ⟨passed, h⟩
  | succ n ih =>
    refine ih (h.playFrame every (by omega)) ?_
    rw [toNat_frames_playFrame (by omega)]
    omega

/-- **With the whole schedule the buttons are set as they would be with the rest of it.** -/
theorem Consumed.applyInput (h : Consumed events s passed) :
    SameGame (applyInput { machine := s.machine, schedule := .ofEvents events }) s.applyInput := by
  constructor
  · rw [machine_applyInput, machine_applyInput, Schedule.bits_due, Schedule.bits_due,
      Schedule.taken_of_append h.split h.due, List.getLast?_append]
    cases (s.schedule.taken s.machine.frames).getLast? with
    | some e => rfl
    | none =>
      -- Nothing more is due: what is given once more is what the latch shows.
      cases hp : passed.getLast? with
      | none => rfl
      | some e => exact Machine.latched_of_latch (h.latch e hp)
  · rw [schedule_applyInput, schedule_applyInput]
    exact Schedule.due_of_append h.split h.due

/-- A session that is taken up again goes on as if it had not been interrupted. -/
theorem Consumed.play_again (h : Consumed events s passed) (every : UInt64) (k : Nat) :
    (Session.play every k { machine := s.machine, schedule := .ofEvents events }).machine =
        (Session.play every k s).machine ∧
      (Session.play every k s).seen = s.seen ++
        (Session.play every k { machine := s.machine, schedule := .ofEvents events }).seen := by
  cases k with
  | zero => exact ⟨rfl, (List.append_nil _).symm⟩
  | succ k =>
    have same := h.applyInput
    have next : SameGame (Session.playFrame every { machine := s.machine, schedule := .ofEvents events })
        (s.playFrame every) := by
      constructor
      · rw [machine_playFrame, machine_playFrame, same.machine]
      · rw [schedule_playFrame, schedule_playFrame, same.schedule]
    obtain ⟨more, hr, hs⟩ := next.exists_seen_play every k
    refine ⟨(next.play every k).machine, ?_⟩
    rw [Session.play, Session.play, hr, hs, seen_playFrame, seen_playFrame, same.machine,
      List.append_assoc]
    rfl

/-- The lines that everybody sees. -/
def lines (s : Session) : List String := s.seen.map Note.message

/-- **A checkpoint is invisible.** A session of `n` frames, saved, loaded into another machine of the
same chips with the same map and taken up again for `k` frames with the whole schedule ends with the
same machine as one session of `n + k` frames, and its two parts show together what that one shows. -/
theorem checkpoint_invisible {chips : Chips} {m other : Machine} (hm : m.Reachable chips)
    (hother : other.Reachable chips) (hmap : other.map = m.map) (events : List InputEvent)
    (every : UInt64) (n k : Nat) (hcount : m.frames.toNat + n + k < UInt64.size) :
    ∃ resumed,
      other.load (play every n { machine := m, schedule := .ofEvents events }).machine.save =
          .ok resumed ∧
        (play every k { machine := resumed, schedule := .ofEvents events }).machine =
          (play every (n + k) { machine := m, schedule := .ofEvents events }).machine ∧
        (play every n { machine := m, schedule := .ofEvents events }).lines ++
            (play every k { machine := resumed, schedule := .ofEvents events }).lines =
          (play every (n + k) { machine := m, schedule := .ofEvents events }).lines := by
  obtain ⟨rom, checksums, sound⟩ := Machine.exists_sound chips
  have before : m.frames.toNat + n < UInt64.size := by omega
  obtain ⟨passed, consumed⟩ := (consumed_nil m events).play every n before
  have first := sound (reachable_play (s := { machine := m, schedule := .ofEvents events }) hm every n)
  have map := map_play every n { machine := m, schedule := .ofEvents events }
  have loaded := first.load_save (sound hother)
  rw [hmap, ← show _ = m.map from map, Machine.setMap_map] at loaded
  obtain ⟨machine, seen⟩ := consumed.play_again every k
  refine ⟨_, loaded, ?_, ?_⟩
  · rw [machine, play_add]
  · rw [lines, lines, lines, play_add, seen, List.map_append]

/-- Changes of the buttons out of order, two of them for one frame. -/
def presses : List InputEvent := [⟨1, 0x10⟩, ⟨0, 0x01⟩, ⟨1, 0x20⟩]

theorem presses_checkpoint_invisible :
    Machine.idle.reset.Reachable Machine.idleChips ∧
      Machine.idle.reset.frames.toNat + 2 + 1 < UInt64.size ∧
      ∃ resumed,
        Machine.idle.load
            (play 1 2 { machine := Machine.idle.reset, schedule := .ofEvents presses }).machine.save =
            .ok resumed ∧
          (play 1 1 { machine := resumed, schedule := .ofEvents presses }).machine =
            (play 1 3 { machine := Machine.idle.reset, schedule := .ofEvents presses }).machine := by
  have start := Machine.reachable_idle.reset
  have count : Machine.idle.reset.frames.toNat + 2 + 1 < UInt64.size := by
    rw [Machine.frames_reset]
    decide
  obtain ⟨resumed, loaded, machine, -⟩ := checkpoint_invisible start Machine.reachable_idle
    (Machine.map_reset _).symm presses 1 2 1 count
  exact ⟨start, count, resumed, loaded, machine⟩

end Session

end Cabinet
