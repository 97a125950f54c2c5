import Cabinet.Proofs.Machine.Latch
import Cabinet.Proofs.Play.Checkpoint
import Cabinet.Proofs.Play.Delivery
/-!
# What a session comes to

A session is told without its schedule: before each frame the latch is that of the last change up to the
frame, or as it was at first if there is none (`latchUpTo`), and then the machine is stepped. The changes
that the schedule has taken so far decide what the latch shows (`Session.Follows`), and a frame keeps
that, since a machine that is stepped leaves its latch alone. So `n` frames are `n` steps under the
latches of their numbers (`Session.machine_play`).

A report is added after the frames whose number is a multiple of the one that was asked for
(`Session.reports_play`), and a session can be interrupted: what has been taken down before does not
matter for what comes (`Session.play_noted`). All of this is `Session.play_closed_form`.
-/

namespace Cabinet

/-- The latch while a frame is run that has so many frames before it: as the last change up to the frame
sets it, or as it was at first. -/
def latchUpTo (ordered : List InputEvent) (first : Latch) (frame : Nat) : Latch :=
  match (ordered.filter fun e => e.frame.toNat ≤ frame).getLast? with
  | some e => ⟨(e.bits &&& 0x77) ||| 0x08⟩
  | none => first

namespace Machine

/-- Changes the latch. -/
def withLatch (m : Machine) (latch : Latch) : Machine := m.mapBoard ({ · with latch })

/-- Steps so many frames, frame `k` of them with the latch `latch k`. -/
def framesUnder (latch : Nat → Latch) (m : Machine) : Nat → Machine
  | 0 => m
  | n + 1 => ((m.framesUnder latch n).withLatch (latch n)).stepFrame.2

theorem withLatch_of_latch {m : Machine} {latch : Latch} (h : m.board.latch = latch) :
    m.withLatch latch = m := by
  subst h
  rfl

end Machine

/-- A note that an observation was wanted. -/
def Note.isReport : Note → Bool
  | .input .. => false
  | _ => true

namespace Session

/-- A session that begins with a machine and changes of the buttons. -/
def start (m : Machine) (events : List InputEvent) : Session :=
  { machine := m, schedule := .ofEvents events }

/-- The note of what is seen of a machine. -/
def noteOf (m : Machine) : Note :=
  match m.observe with
  | .ok seen => .observed m.frames seen
  | .error reason => .unobservable m.frames reason

/-- The reports, oldest first. -/
def reports (s : Session) : List Note := s.notes.toList.filter Note.isReport

variable {every : UInt64} {s : Session} {n : Nat}

/-- Steps the machine. -/
def stepped (s : Session) : Session := { s with machine := s.machine.stepFrame.2 }

/-- A frame sets the buttons, steps the machine, and may add a report. -/
theorem playFrame_eq : s.playFrame every =
    if wantsReport every s.applyInput.stepped.machine.frames then s.applyInput.stepped.report
    else s.applyInput.stepped := rfl

theorem play_succ (every : UInt64) (n : Nat) (s : Session) :
    play every (n + 1) s = (play every n s).playFrame every :=
  play_add every n 1 s

/-! ### The latch of each frame -/

/-- The changes `passed` have been taken, and the latch shows the last one, or the first latch if there
are none. -/
structure Follows (events : List InputEvent) (first : Latch) (s : Session) (passed : List InputEvent) :
    Prop extends Consumed events s passed where
  /-- Without a change the latch is as at first. -/
  untouched : passed = [] → s.machine.board.latch = first

section Follows

variable {events passed : List InputEvent} {first : Latch}

theorem follows_start (m : Machine) (events : List InputEvent) :
    Follows events m.board.latch (start m events) [] where
  toConsumed := consumed_nil m events
  untouched _ := rfl

/-- **One frame**: what is due at it has been taken as well. -/
theorem Follows.playFrame (h : Follows events first s passed) (every : UInt64)
    (hcount : s.machine.frames.toNat + 1 < UInt64.size) :
    Follows events first (s.playFrame every) (passed ++ s.schedule.taken s.machine.frames) where
  toConsumed := h.toConsumed.playFrame every hcount
  untouched none := by
    obtain ⟨before, now⟩ := List.append_eq_nil_iff.1 none
    rw [machine_playFrame, Machine.latch_stepFrame, machine_applyInput, Schedule.bits_due, now]
    exact h.untouched before

/-- **Many frames.** -/
theorem Follows.play (h : Follows events first s passed) (every : UInt64) (n : Nat)
    (hcount : s.machine.frames.toNat + n < UInt64.size) :
    ∃ passed', Follows events first (play every n s) passed' := by
  induction n generalizing s passed with
  | zero => exact ⟨passed, h⟩
  | succ n ih =>
    refine ih (h.playFrame every (by omega)) ?_
    rw [toNat_frames_playFrame (by omega)]
    omega

/-- The changes up to the next frame are those that were taken and those that are due. -/
theorem Follows.filter_eq (h : Follows events first s passed) :
    ((Schedule.ofEvents events).pending.filter fun e =>
        e.frame.toNat ≤ s.machine.frames.toNat) =
      passed ++ s.schedule.taken s.machine.frames := by
  have sorted := (Schedule.inOrder_ofEvents events).sorted
  rw [h.split, List.pairwise_append] at sorted
  have old : passed.filter (fun e => decide (e.frame.toNat ≤ s.machine.frames.toNat)) = passed := by
    apply List.filter_eq_self.2
    intro e he
    exact decide_eq_true (UInt64.le_iff_toNat_le.1 (h.due e he))
  rw [h.split, List.filter_append, old, (Schedule.taken_and_pending_due sorted.2.1 _).1]
  rfl

/-- **Before a frame the latch is set** to that of the last change up to the frame. -/
theorem Follows.machine_applyInput (h : Follows events first s passed) :
    s.applyInput.machine = s.machine.withLatch
      (latchUpTo (Schedule.ofEvents events).pending first s.machine.frames.toNat) := by
  rw [Session.machine_applyInput, Schedule.bits_due, latchUpTo, h.filter_eq, List.getLast?_append]
  cases (s.schedule.taken s.machine.frames).getLast? with
  | some e => rfl
  | none =>
    -- Nothing is due: the latch shows the last change that was taken, if there is one.
    symm
    apply Machine.withLatch_of_latch
    cases last : passed.getLast? with
    | some e => exact h.latch e last
    | none => exact h.untouched (List.getLast?_eq_none_iff.1 last)

end Follows

/-! ### Counting frames -/

theorem toNat_frames_play (h : s.machine.frames.toNat + n < UInt64.size) :
    (play every n s).machine.frames.toNat = s.machine.frames.toNat + n := by
  induction n with
  | zero => rfl
  | succ n ih =>
    have count := ih (by omega)
    rw [play_succ, toNat_frames_playFrame (by omega), count]
    rfl

/-- **`n` frames are `n` steps** under the latches of their numbers. -/
theorem machine_play (m : Machine) (events : List InputEvent) (every : UInt64) (n : Nat)
    (hcount : m.frames.toNat + n < UInt64.size) :
    (play every n (start m events)).machine = m.framesUnder (fun k =>
      latchUpTo (Schedule.ofEvents events).pending m.board.latch (m.frames.toNat + k)) n := by
  induction n with
  | zero => rfl
  | succ n ih =>
    obtain ⟨passed, follows⟩ := (follows_start m events).play every n (by
      show m.frames.toNat + n < _
      omega)
    have count : (play every n (start m events)).machine.frames.toNat = m.frames.toNat + n :=
      toNat_frames_play (by
        show m.frames.toNat + n < _
        omega)
    rw [play_succ, machine_playFrame, follows.machine_applyInput, count, ih (by omega)]
    rfl

/-! ### Reports -/

theorem wantsReport_iff {frames : UInt64} :
    wantsReport every frames = true ↔ every ≠ 0 ∧ every.toNat ∣ frames.toNat := by
  rw [wantsReport, Bool.and_eq_true, bne_iff_ne, beq_iff_eq, ← UInt64.toNat_inj (a := _ % _),
    UInt64.toNat_mod, Nat.dvd_iff_mod_eq_zero]
  rfl

theorem reports_applyInput : s.applyInput.reports = s.reports := by
  cases h : s.schedule.due s.machine.frames with
  | mk bits? schedule =>
    simp only [applyInput, h]
    cases bits? with
    | none => rfl
    | some bits => simp [reports, write, Note.isReport]

theorem reports_report : s.report.reports = s.reports ++ [noteOf s.machine] := by
  rw [report, noteOf]
  cases s.machine.observe with
  | ok seen => simp [reports, write, Note.isReport]
  | error reason => simp [reports, write, Note.isReport]

/-- **One frame**: a report is added if the number of frames is one for which it is wanted. -/
theorem reports_playFrame : (s.playFrame every).reports =
    s.reports ++ if wantsReport every (s.playFrame every).machine.frames then
      [noteOf (s.playFrame every).machine] else [] := by
  have kept : s.applyInput.stepped.reports = s.reports := reports_applyInput
  rw [show (s.playFrame every).machine = s.applyInput.stepped.machine from machine_playFrame every s,
    playFrame_eq]
  by_cases wanted : wantsReport every s.applyInput.stepped.machine.frames = true
  · rw [if_pos wanted, if_pos wanted, reports_report, kept]
  · rw [if_neg wanted, if_neg wanted, List.append_nil, kept]

/-- **Many frames**: a report is added after each frame whose number is a multiple of that asked for. -/
theorem reports_play (h : s.machine.frames.toNat + n < UInt64.size) :
    (play every n s).reports = s.reports ++
      ((List.range n).filter fun k => every ≠ 0 ∧ every.toNat ∣ s.machine.frames.toNat + k + 1).map
        fun k => noteOf (play every (k + 1) s).machine := by
  induction n with
  | zero => simp [play]
  | succ n ih =>
    have count : (play every (n + 1) s).machine.frames.toNat = s.machine.frames.toNat + n + 1 :=
      toNat_frames_play h
    rw [play_succ] at count
    rw [play_succ, reports_playFrame, ih (by omega), List.range_succ, List.filter_append,
      List.map_append, List.append_assoc]
    congr 2
    by_cases wanted : wantsReport every ((play every n s).playFrame every).machine.frames = true
    · have due := wantsReport_iff.1 wanted
      rw [count] at due
      rw [if_pos wanted, List.filter_cons_of_pos (by simpa using due)]
      simp [play_succ]
    · have due := mt wantsReport_iff.2 wanted
      rw [count] at due
      rw [if_neg wanted, List.filter_cons_of_neg (by simpa using due)]
      simp

/-! ### Going on -/

/-- The session with notes taken down before. -/
def noted (before : Array Note) (s : Session) : Session := { s with notes := before ++ s.notes }

variable {before : Array Note}

theorem write_noted (n : Note) : (s.noted before).write n = (s.write n).noted before := by
  simp [noted, write]

theorem applyInput_noted : (s.noted before).applyInput = s.applyInput.noted before := by
  cases h : s.schedule.due s.machine.frames with
  | mk bits? schedule =>
    have h' : (s.noted before).schedule.due (s.noted before).machine.frames = (bits?, schedule) := h
    simp only [applyInput, h, h']
    cases bits? with
    | none => rfl
    | some bits => exact write_noted (s := { s with schedule, machine := s.machine.setInputBits bits }) _

theorem stepped_noted : (s.noted before).stepped = s.stepped.noted before := rfl

theorem report_noted : (s.noted before).report = s.report.noted before := by
  have same : (s.noted before).machine = s.machine := rfl
  rw [report, report, same]
  cases s.machine.observe with
  | ok seen => exact write_noted _
  | error reason => exact write_noted _

theorem playFrame_noted : (s.noted before).playFrame every = (s.playFrame every).noted before := by
  have same : (s.applyInput.stepped.noted before).machine = s.applyInput.stepped.machine := rfl
  rw [playFrame_eq, playFrame_eq, applyInput_noted, stepped_noted, same, report_noted]
  exact (apply_ite (noted before) _ _ _).symm

/-- **What has been taken down before does not matter** for what comes. -/
theorem play_noted (every : UInt64) (n : Nat) :
    play every n (s.noted before) = (play every n s).noted before := by
  induction n with
  | zero => rfl
  | succ n ih => rw [play_succ, ih, playFrame_noted, play_succ]

/-! ### The closed form -/

/-- **What a session comes to.** From a machine with some number of frames, `n` frames are `n` steps. The
latch of each is that of the last change, in the one order of the changes, up to the number of frames
before it, and as it was at first if there is none; this is what the processor reads at port 1 during the
frame. A report is added after the frames whose number is a multiple of the one asked for, if one is asked
for, in their order. A session that is interrupted goes on as if it had not been. -/
theorem play_closed_form (m : Machine) (events : List InputEvent) (every : UInt64) (n : Nat)
    (hcount : m.frames.toNat + n < UInt64.size) :
    ∃ ordered, InOrder events ordered ∧
      let latch : Nat → Latch := fun k => latchUpTo ordered m.board.latch (m.frames.toNat + k)
      (play every n (start m events)).machine = m.framesUnder latch n ∧
      (play every n (start m events)).machine.frames.toNat = m.frames.toNat + n ∧
      (∀ k < n, (m.framesUnder latch k).frames.toNat = m.frames.toNat + k ∧
        (m.framesUnder latch (k + 1)).board.latch = latch k ∧
        ∀ x ∈ ((m.framesUnder latch k).withLatch (latch k)).accesses .stepFrame,
          x.kind = .input → Board.portNumber x.address = 1 → x.value = (latch k).bits) ∧
      (play every n (start m events)).reports =
        ((List.range n).filter fun k => every ≠ 0 ∧ every.toNat ∣ m.frames.toNat + k + 1).map
          (fun k => noteOf (m.framesUnder latch (k + 1))) ∧
      ∀ more,
        let first := play every n (start m events)
        let second := play every more { machine := first.machine, schedule := first.schedule }
        let whole := play every (n + more) (start m events)
        second.machine = whole.machine ∧ second.schedule = whole.schedule ∧
          first.notes ++ second.notes = whole.notes := by
  refine ⟨_, Schedule.inOrder_ofEvents events, ?_⟩
  intro latch
  have machine : ∀ k ≤ n, (play every k (start m events)).machine = m.framesUnder latch k := by
    intro k hk
    exact machine_play m events every k (by omega)
  have count : ∀ k ≤ n, (play every k (start m events)).machine.frames.toNat = m.frames.toNat + k := by
    intro k hk
    apply toNat_frames_play
    show m.frames.toNat + k < _
    omega
  refine ⟨machine n (Nat.le_refl n), count n (Nat.le_refl n), ?_, ?_, ?_⟩
  · intro k hk
    refine ⟨?_, Machine.latch_stepFrame _, Machine.input_accesses _ _⟩
    rw [← machine k (Nat.le_of_lt hk), count k (Nat.le_of_lt hk)]
  · rw [reports_play hcount]
    refine (List.nil_append _).trans (List.map_congr_left ?_)
    intro k hk
    have hk := List.mem_range.1 (List.mem_filter.1 hk).1
    rw [machine (k + 1) hk]
  · intro more first second whole
    have joined : whole = second.noted first.notes := by
      show play every (n + more) (start m events) = _
      rw [play_add, ← play_noted]
      rfl
    rw [joined]
    exact ⟨rfl, rfl, rfl⟩

/-- The changes in their order. -/
theorem inOrder_presses : InOrder presses [⟨0, 0x01⟩, ⟨1, 0x10⟩, ⟨1, 0x20⟩] where
  perm := .swap ..
  sorted := by decide
  stable frame := by
    by_cases h0 : frame = 0
    · subst h0
      decide
    by_cases h1 : frame = 1
    · subst h1
      decide
    · simp [presses, Ne.symm h0, Ne.symm h1]

theorem presses_play :
    Machine.idle.reset.frames.toNat + 3 < UInt64.size ∧
      (play 2 3 (start Machine.idle.reset presses)).machine.frames.toNat = 3 ∧
      (play 2 3 (start Machine.idle.reset presses)).machine.board.latch = ⟨0x28⟩ ∧
      (play 2 3 (start Machine.idle.reset presses)).reports.length = 1 := by
  have zero := congrArg UInt64.toNat (Machine.frames_reset Machine.idle)
  have count : Machine.idle.reset.frames.toNat + 3 < UInt64.size := by
    rw [zero]
    decide
  obtain ⟨ordered, order, machine, frames, during, reports, -⟩ :=
    play_closed_form Machine.idle.reset presses 2 3 count
  obtain rfl := order.unique inOrder_presses
  refine ⟨count, ?_, ?_, ?_⟩
  · rw [frames, zero]
    rfl
  · rw [machine, (during 2 (by decide)).2.1, zero]
    rfl
  · rw [reports, zero, List.length_map]
    rfl

end Session

end Cabinet
