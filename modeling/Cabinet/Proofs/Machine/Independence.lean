import Cabinet.Proofs.Board.Access
import Cabinet.Proofs.Machine.Restore
/-!
# What the game does not depend on

Pacing, the picture, the address map, the counters and the second bank of switches are no part of the
game: the processor cannot tell them. Two owners of machines with the same chips and the same state of
the game who run them, press the buttons and write memory alike, and besides set the pacing, take the
picture, set the map and look at the game as each of them likes, get the same cycles for every step
and the same state of the game (`Machine.asides_unfelt`).

Leaving out what one of them does besides changes nothing of his game (`Machine.Feels.callAll_filter`),
so both games are the one that is left.
-/

namespace Cabinet

/-! ### Playing and what is done besides -/

/-- What an owner does with a machine. -/
inductive Call where
  /-- One of the operations. -/
  | operate (op : Operation)
  /-- Looks at the game. -/
  | observe

/-- What comes back. -/
inductive Reply where
  /-- The answer to an operation. -/
  | answer (a : Answer)
  /-- What is seen of the game. -/
  | seen (x : Except Observation.UnknownRevision Observation)

/-- It is part of the game: the processor runs, buttons are pressed, or memory is written. -/
def Operation.isPlay : Operation → Bool
  | .stepFrame | .stepCycles _ | .setInput _ _ | .setInputBits _ | .write _ _ => true
  | _ => false

/-- It is done besides the game: the pacing or the map is set, or the picture is taken. -/
def Operation.isAside : Operation → Bool
  | .setSpeed _ | .setUncapped _ | .updatePixels | .setMap _ => true
  | _ => false

/-- It is part of the game. -/
def Call.isPlay : Call → Bool
  | .operate op => op.isPlay
  | .observe => false

/-- It is done besides the game. -/
def Call.isAside : Call → Bool
  | .operate op => op.isAside
  | .observe => true

/-- The cycles that a step took, if it was a step. -/
def Reply.cycles? : Reply → Option UInt32
  | .answer (.cycles n) => some n
  | _ => none

namespace Machine

/-- Does one thing with a machine. -/
def call (m : Machine) : Call → Reply × Machine
  | .operate op => (.answer (m.perform op).1, (m.perform op).2)
  | .observe => (.seen m.observe, m)

/-- Does one thing after the other. -/
def callAll (m : Machine) : List Call → List Reply × Machine
  | [] => ([], m)
  | c :: cs =>
    let rest := (m.call c).2.callAll cs
    ((m.call c).1 :: rest.1, rest.2)

/-- The cycles that each step took when the machine was used so. -/
def cyclesOf (m : Machine) (cs : List Call) : List UInt32 := (m.callAll cs).1.filterMap Reply.cycles?

/-- The same state of the game. -/
structure SamePlay (m n : Machine) : Prop where
  /-- The same state of the processor. -/
  cpu : m.circuit.cpu = n.circuit.cpu
  /-- The same bytes in the bank that can be written. -/
  ram : m.ram = n.ram
  /-- The same state of the shifter. -/
  shifter : m.board.shifter = n.board.shifter
  /-- The same buttons. -/
  latch : m.board.latch = n.board.latch
  /-- The same switches at port 0. -/
  first : m.board.dips.first = n.board.dips.first
  /-- The same switches at port 2. -/
  third : m.board.dips.third = n.board.dips.third

/-- The processor feels the same: it is in the same state, on boards that look the same to it. -/
def Feels (m n : Machine) : Prop := Circuit.Alike Board.SameView m.circuit n.circuit

variable {rom : Block} {checksums : List UInt32} {m n k : Machine}

/-- With the same program, the same state of the game feels the same. -/
theorem SamePlay.feels (h : SamePlay m n) (hm : m.Sound rom checksums) (hn : n.Sound rom checksums) :
    Feels m n := by
  obtain ⟨ram, hr⟩ := hm.memory
  obtain ⟨ram', hr'⟩ := hn.memory
  have same : ram = ram' := Subtype.ext (by rw [← ram_of_memory hr, ← ram_of_memory hr', h.ram])
  refine Circuit.alike_iff.2 ⟨h.cpu, ⟨?_, h.shifter, h.latch, h.first, h.third⟩⟩
  rw [hr, hr', same]

theorem Feels.samePlay (h : Feels m n) : SamePlay m n := by
  obtain ⟨cpu, view⟩ := Circuit.alike_iff.1 h
  refine ⟨cpu, ?_, view.shifter, view.latch, view.first, view.third⟩
  rw [ram, ram, board, board, view.memory]

theorem Feels.of_circuit (h : m.circuit = n.circuit) : Feels m n :=
  Circuit.alike_iff.2 ⟨congrArg _ h, h ▸ .refl _⟩

theorem Feels.refl (m : Machine) : Feels m m := .of_circuit rfl

theorem Feels.symm (h : Feels m n) : Feels n m :=
  Circuit.alike_iff.2 ⟨h.cpu_eq.symm, h.bus.symm⟩

theorem Feels.trans (h : Feels m n) (h' : Feels n k) : Feels m k :=
  Circuit.alike_iff.2 ⟨h.cpu_eq.trans h'.cpu_eq, h.bus.trans h'.bus⟩

/-! ### One call -/

theorem Feels.stepFrame (h : Feels m n) :
    m.stepFrame.1 = n.stepFrame.1 ∧ Feels m.stepFrame.2 n.stepFrame.2 := by
  have alike := Board.SameView.simulation
  have first := Circuit.Alike.execute alike h halfFrame
  have mid := first.alike.interrupt alike midScreen
  have second := mid.alike.execute alike halfFrame
  refine ⟨?_, frame_alike alike h⟩
  rw [cycles_stepFrame, cycles_stepFrame, first.answer_eq, second.answer_eq]

theorem Feels.stepCycles (h : Feels m n) (budget : UInt32) :
    (m.stepCycles budget).1 = (n.stepCycles budget).1 ∧
      Feels (m.stepCycles budget).2 (n.stepCycles budget).2 := by
  have burst := Circuit.Alike.execute Board.SameView.simulation h budget
  exact ⟨burst.answer_eq, burst.alike⟩

/-- A change of the board that feels the same on boards that look the same. -/
theorem Feels.mapBoard (h : Feels m n) {f : Board → Board}
    (hf : ∀ {s t : Board}, s.SameView t → (f s).SameView (f t)) : Feels (m.mapBoard f) (n.mapBoard f) :=
  Circuit.alike_iff.2 ⟨h.cpu_eq, hf h.bus⟩

theorem Feels.setInput (h : Feels m n) (id : UInt8) (pressed : Bool) :
    Feels (m.setInput id pressed) (n.setInput id pressed) := by
  unfold Machine.setInput
  split
  · next button _ =>
    exact h.mapBoard fun v =>
      ⟨v.memory, v.shifter, congrArg (·.set button pressed) v.latch, v.first, v.third⟩
  · exact h

/-- **Play feels the same**, and takes as many cycles. -/
theorem Feels.call (h : Feels m n) {c : Call} (hc : c.isPlay = true) :
    (m.call c).1.cycles? = (n.call c).1.cycles? ∧ Feels (m.call c).2 (n.call c).2 := by
  cases c with
  | observe => cases hc
  | operate op =>
    cases op with
    | stepFrame => exact ⟨congrArg some h.stepFrame.1, h.stepFrame.2⟩
    | stepCycles budget => exact ⟨congrArg some (h.stepCycles budget).1, (h.stepCycles budget).2⟩
    | setInput id pressed => exact ⟨rfl, h.setInput id pressed⟩
    | setInputBits bits =>
      exact ⟨rfl, h.mapBoard fun v => ⟨v.memory, v.shifter, rfl, v.first, v.third⟩⟩
    | write a x => exact ⟨rfl, h.mapBoard fun v => v.write a x⟩
    | _ => cases hc

/-- **What is done besides is not felt**, and is no step. -/
theorem feels_call_aside {c : Call} (hc : c.isAside = true) :
    (m.call c).1.cycles? = none ∧ Feels (m.call c).2 m := by
  cases c with
  | observe => exact ⟨rfl, .refl m⟩
  | operate op =>
    cases op with
    | setSpeed | setUncapped | setMap => exact ⟨rfl, .of_circuit rfl⟩
    | updatePixels => exact ⟨rfl, .of_circuit m.circuit_updatePixels⟩
    | _ => cases hc

/-! ### Any number of calls -/

theorem cyclesOf_cons (m : Machine) (c : Call) (cs : List Call) :
    m.cyclesOf (c :: cs) = (m.call c).1.cycles?.toList ++ (m.call c).2.cyclesOf cs := by
  rw [cyclesOf, callAll, List.filterMap_cons]
  cases (m.call c).1.cycles? with
  | none => rfl
  | some n => rfl

/-- **Leaving out what is done besides changes nothing of the game.** -/
theorem Feels.callAll_filter (h : Feels m n) {cs : List Call}
    (hcs : ∀ c ∈ cs, c.isPlay = true ∨ c.isAside = true) :
    m.cyclesOf cs = n.cyclesOf (cs.filter Call.isPlay) ∧
      Feels (m.callAll cs).2 (n.callAll (cs.filter Call.isPlay)).2 := by
  induction cs generalizing m n with
  | nil => exact ⟨rfl, h⟩
  | cons c cs ih =>
    have rest : ∀ c ∈ cs, c.isPlay = true ∨ c.isAside = true :=
      fun c hc => hcs c (List.mem_cons_of_mem _ hc)
    by_cases play : c.isPlay = true
    · obtain ⟨cycles, after⟩ := h.call play
      obtain ⟨more, last⟩ := ih after rest
      rw [List.filter_cons_of_pos play, cyclesOf_cons, cyclesOf_cons, cycles, more]
      exact ⟨rfl, last⟩
    · obtain ⟨none, after⟩ := feels_call_aside (m := m)
        ((hcs c (List.mem_cons_self ..)).resolve_left play)
      obtain ⟨more, last⟩ := ih (after.trans h) rest
      rw [List.filter_cons_of_neg play, cyclesOf_cons, none, more]
      exact ⟨rfl, last⟩

/-- **What is done besides the game does not change the game.** Two machines of the same chips in the
same state of the game, whatever their pacing, pictures, maps, counters and second banks of switches
are, take the same cycles for every step and stay in the same state of the game, if both are played
alike, whatever is done besides on each of them. -/
theorem asides_unfelt {chips : Chips} (hm : m.Reachable chips) (hn : n.Reachable chips)
    (same : SamePlay m n) {cs ds : List Call}
    (hcs : ∀ c ∈ cs, c.isPlay = true ∨ c.isAside = true)
    (hds : ∀ d ∈ ds, d.isPlay = true ∨ d.isAside = true)
    (play : cs.filter Call.isPlay = ds.filter Call.isPlay) :
    m.cyclesOf cs = n.cyclesOf ds ∧ SamePlay (m.callAll cs).2 (n.callAll ds).2 := by
  obtain ⟨rom, checksums, sound⟩ := exists_sound chips
  obtain ⟨cycles, left⟩ := (same.feels (sound hm) (sound hn)).callAll_filter hcs
  obtain ⟨cycles', right⟩ := (Feels.refl n).callAll_filter hds
  rw [play] at cycles left
  exact ⟨cycles.trans cycles'.symm, (left.trans right.symm).samePlay⟩

/-- The first of two machines in the same state of the game. -/
def watched : Machine := (idle.performAll [.setDips ⟨1, 2, 3⟩]).2

/-- The second one, with other switches in the second bank, another pacing, a picture and no map. -/
def unwatched : Machine :=
  (idle.performAll [.setDips ⟨1, 0xFF, 3⟩, .setSpeed .zero, .setMap none, .updatePixels]).2

/-- What is done with the first one. -/
def watchedCalls : List Call :=
  [.observe, .operate .stepFrame, .operate .updatePixels, .operate (.setInput 0 true),
    .operate (.write 0x2000 0x76), .operate (.stepCycles 100), .observe]

/-- What is done with the second one. -/
def unwatchedCalls : List Call :=
  [.operate .stepFrame, .operate (.setInput 0 true), .operate (.setUncapped false),
    .operate (.write 0x2000 0x76), .operate (.setMap none), .operate (.stepCycles 100)]

theorem watched_as_unwatched :
    watched.Reachable idleChips ∧ unwatched.Reachable idleChips ∧ SamePlay watched unwatched ∧
      (∀ c ∈ watchedCalls, c.isPlay = true ∨ c.isAside = true) ∧
      (∀ d ∈ unwatchedCalls, d.isPlay = true ∨ d.isAside = true) ∧
      watchedCalls.filter Call.isPlay = unwatchedCalls.filter Call.isPlay ∧
      watched.cyclesOf watchedCalls = unwatched.cyclesOf unwatchedCalls ∧
      SamePlay (watched.callAll watchedCalls).2 (unwatched.callAll unwatchedCalls).2 := by
  have start : watched.Reachable idleChips := reachable_idle.performAll _
  have start' : unwatched.Reachable idleChips := reachable_idle.performAll _
  have circuit : unwatched.circuit = (idle.setDips ⟨1, 0xFF, 3⟩).circuit :=
    circuit_updatePixels (((idle.setDips ⟨1, 0xFF, 3⟩).setSpeed .zero).setMap none)
  have dips : Feels watched (idle.setDips ⟨1, 0xFF, 3⟩) :=
    Circuit.alike_iff.2 ⟨rfl, ⟨rfl, rfl, rfl, rfl, rfl⟩⟩
  have same : SamePlay watched unwatched := (dips.trans (.of_circuit circuit.symm)).samePlay
  have sorts : ∀ c ∈ watchedCalls, c.isPlay = true ∨ c.isAside = true := by decide
  have sorts' : ∀ d ∈ unwatchedCalls, d.isPlay = true ∨ d.isAside = true := by decide
  exact ⟨start, start', same, sorts, sorts', rfl, asides_unfelt start start' same sorts sorts' rfl⟩

end Machine

end Cabinet
