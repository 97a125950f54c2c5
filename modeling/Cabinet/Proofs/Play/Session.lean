import Cabinet.Play.Session
import Cabinet.Proofs.Board.Access
import Cabinet.Proofs.Machine.Reachable
/-!
# What a session does

A frame of a session sets the buttons, steps the machine and may add to what everybody sees
(`Session.seen`). Each of the three depends on nothing but the machine and the schedule, so sessions
with the same machine and the same schedule go on in the same way, whatever they have taken down
before (`Session.exists_seen_play`).
-/

namespace Cabinet

/-! ### What is due -/

namespace Schedule

/-- The changes that are due at a frame. -/
def taken (s : Schedule) (frame : UInt64) : List InputEvent :=
  s.pending.takeWhile fun e => decide (e.frame ≤ frame)

variable {s t : Schedule} {frame : UInt64} {passed : List InputEvent}

theorem bits_due (s : Schedule) (frame : UInt64) :
    (s.due frame).1 = (s.taken frame).getLast?.map (·.bits) := rfl

/-- What is due is taken out from the front. -/
theorem taken_append_due (s : Schedule) (frame : UInt64) :
    s.taken frame ++ (s.due frame).2.pending = s.pending :=
  List.takeWhile_append_dropWhile

theorem le_of_mem_taken {e : InputEvent} (h : e ∈ s.taken frame) : e.frame ≤ frame :=
  of_decide_eq_true (List.all_eq_true.1 List.all_takeWhile e h)

/-- Changes in front that are due are taken with the others. -/
theorem taken_of_append (h : t.pending = passed ++ s.pending) (due : ∀ e ∈ passed, e.frame ≤ frame) :
    t.taken frame = passed ++ s.taken frame := by
  rw [taken, h, List.takeWhile_append_of_pos fun e he => decide_eq_true (due e he)]
  rfl

/-- What stays is the same with them and without them. -/
theorem due_of_append (h : t.pending = passed ++ s.pending) (due : ∀ e ∈ passed, e.frame ≤ frame) :
    (t.due frame).2 = (s.due frame).2 := by
  rw [Schedule.due, h, List.dropWhile_append_of_pos fun e he => decide_eq_true (due e he)]
  rfl

end Schedule

/-! ### One frame -/

/-- Sets the buttons, if there is something to set them to. -/
def Machine.latched (m : Machine) : Option UInt8 → Machine
  | some bits => m.setInputBits bits
  | none => m

namespace Session

/-- What everybody sees. -/
def seen (s : Session) : List Note := s.notes.toList.filter Note.isPublic

/-- What everybody sees of a machine. -/
def shown (m : Machine) : List Note :=
  match m.observe with
  | .ok seen => [.observed m.frames seen]
  | .error _ => []

/-- What everybody sees of a machine after a frame. -/
def shownAfter (every : UInt64) (m : Machine) : List Note :=
  if wantsReport every m.frames then shown m else []

variable (every : UInt64) (s : Session)

theorem machine_applyInput :
    s.applyInput.machine = s.machine.latched (s.schedule.due s.machine.frames).1 := by
  cases h : s.schedule.due s.machine.frames with
  | mk bits? schedule =>
    simp only [applyInput, h]
    cases bits? <;> rfl

theorem schedule_applyInput :
    s.applyInput.schedule = (s.schedule.due s.machine.frames).2 := by
  cases h : s.schedule.due s.machine.frames with
  | mk bits? schedule =>
    simp only [applyInput, h]
    cases bits? <;> rfl

theorem seen_applyInput : s.applyInput.seen = s.seen := by
  cases h : s.schedule.due s.machine.frames with
  | mk bits? schedule =>
    simp only [applyInput, h]
    cases bits? with
    | none => rfl
    | some bits => simp [seen, write, Note.isPublic]

theorem machine_report : s.report.machine = s.machine := by
  unfold report
  split <;> rfl

theorem schedule_report : s.report.schedule = s.schedule := by
  unfold report
  split <;> rfl

theorem machine_playFrame : (s.playFrame every).machine = s.applyInput.machine.stepFrame.2 := by
  rw [playFrame]
  dsimp only
  split
  · exact machine_report _
  · rfl

theorem schedule_playFrame : (s.playFrame every).schedule = s.applyInput.schedule := by
  rw [playFrame]
  dsimp only
  split
  · exact schedule_report _
  · rfl

theorem seen_report : s.report.seen = s.seen ++ shown s.machine := by
  rw [report, shown]
  cases s.machine.observe with
  | ok seen => simp [Session.seen, write, Note.isPublic]
  | error reason => simp [seen, write, Note.isPublic]

theorem seen_playFrame :
    (s.playFrame every).seen = s.seen ++ shownAfter every s.applyInput.machine.stepFrame.2 := by
  rw [← seen_applyInput s]
  by_cases h : wantsReport every s.applyInput.machine.stepFrame.2.frames = true
  · rw [playFrame, if_pos h, shownAfter, if_pos h, seen_report]
    rfl
  · rw [playFrame, if_neg h, shownAfter, if_neg h, List.append_nil]
    rfl

/-! ### Many frames -/

variable {every s} {t : Session}

/-- The same machine, and the same changes of the buttons to come. -/
structure SameGame (s t : Session) : Prop where
  machine : s.machine = t.machine
  schedule : s.schedule = t.schedule

theorem SameGame.applyInput (h : SameGame s t) : SameGame s.applyInput t.applyInput := by
  constructor
  · rw [machine_applyInput, machine_applyInput, h.machine, h.schedule]
  · rw [schedule_applyInput, schedule_applyInput, h.machine, h.schedule]

theorem SameGame.playFrame (h : SameGame s t) (every : UInt64) :
    SameGame (s.playFrame every) (t.playFrame every) := by
  constructor
  · rw [machine_playFrame, machine_playFrame, h.applyInput.machine]
  · rw [schedule_playFrame, schedule_playFrame, h.applyInput.schedule]

theorem SameGame.play (h : SameGame s t) (every : UInt64) (n : Nat) :
    SameGame (play every n s) (play every n t) := by
  induction n generalizing s t with
  | zero => exact h
  | succ n ih => exact ih (h.playFrame every)

/-- **The same game shows the same.** -/
theorem SameGame.exists_seen_play (h : SameGame s t) (every : UInt64) (n : Nat) :
    ∃ more, (Session.play every n s).seen = s.seen ++ more ∧
      (Session.play every n t).seen = t.seen ++ more := by
  induction n generalizing s t with
  | zero => exact ⟨[], (List.append_nil _).symm, (List.append_nil _).symm⟩
  | succ n ih =>
    obtain ⟨more, hs, ht⟩ := ih (h.playFrame every)
    refine ⟨shownAfter every s.applyInput.machine.stepFrame.2 ++ more, ?_, ?_⟩
    · rw [Session.play, hs, seen_playFrame, List.append_assoc]
    · rw [Session.play, ht, seen_playFrame, List.append_assoc, h.applyInput.machine]

end Session

/-! ### What a frame keeps -/

namespace Machine

theorem latch_stepFrame (m : Machine) : m.stepFrame.2.board.latch = m.board.latch :=
  stepFrame_keeps (Board.keeps_latch m.board.latch) rfl

theorem frames_stepFrame (m : Machine) : m.stepFrame.2.frames = m.frames + 1 := rfl

theorem map_stepFrame (m : Machine) : m.stepFrame.2.map = m.map := rfl

theorem frames_reset (m : Machine) : m.reset.frames = 0 := rfl

theorem map_reset (m : Machine) : m.reset.map = m.map := rfl

theorem Reachable.reset {chips : Chips} {m : Machine} (h : m.Reachable chips) :
    m.reset.Reachable chips :=
  h.perform .reset

theorem frames_latched (m : Machine) (bits? : Option UInt8) : (m.latched bits?).frames = m.frames := by
  cases bits? <;> rfl

theorem map_latched (m : Machine) (bits? : Option UInt8) : (m.latched bits?).map = m.map := by
  cases bits? <;> rfl

theorem Reachable.latched {chips : Chips} {m : Machine} (h : m.Reachable chips)
    (bits? : Option UInt8) : (m.latched bits?).Reachable chips := by
  cases bits? with
  | none => exact h
  | some bits => exact h.perform (.setInputBits bits)

end Machine

namespace Session

theorem frames_playFrame (every : UInt64) (s : Session) :
    (s.playFrame every).machine.frames = s.machine.frames + 1 := by
  rw [machine_playFrame, Machine.frames_stepFrame, machine_applyInput, Machine.frames_latched]

theorem toNat_frames_playFrame {every : UInt64} {s : Session}
    (h : s.machine.frames.toNat + 1 < UInt64.size) :
    (s.playFrame every).machine.frames.toNat = s.machine.frames.toNat + 1 := by
  rw [frames_playFrame, UInt64.toNat_add]
  exact Nat.mod_eq_of_lt h

theorem map_play (every : UInt64) (n : Nat) (s : Session) :
    (play every n s).machine.map = s.machine.map := by
  induction n generalizing s with
  | zero => rfl
  | succ n ih =>
    rw [play, ih, machine_playFrame, Machine.map_stepFrame, machine_applyInput, Machine.map_latched]

theorem reachable_play {chips : Chips} {s : Session} (h : s.machine.Reachable chips) (every : UInt64)
    (n : Nat) : (play every n s).machine.Reachable chips := by
  induction n generalizing s with
  | zero => exact h
  | succ n ih =>
    refine ih ?_
    rw [machine_playFrame, machine_applyInput]
    exact (h.latched _).perform .stepFrame

end Session

end Cabinet
