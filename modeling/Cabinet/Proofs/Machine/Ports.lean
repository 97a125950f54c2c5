import Cabinet.Proofs.Cpu.Arithmetic
import Cabinet.Proofs.Machine.Latch
/-!
# What the ports tell of the past

What happens to a machine is a sequence of events: the accesses of the processor and what the owner does
between them (`Machine.history`). What a port shows can be told from the events so far, without the state
of any device (`Answers`): the switches as they were last set, each button as it was last pressed or
released, and a window of the last two bytes written to the shifter. The devices summarise the events
(`Shows`); each event keeps that up, whatever the program does (`Shows.output` for the shifter,
`Shows.perform` for the owner), and so does any number of them (`Machine.ports_tell_history`).
-/

namespace Cabinet

/-! ### Ports and the shifter -/

/-- The number of a port is on both halves of the address. -/
theorem Board.portNumber_portAddress (n : UInt8) :
    portNumber (Circuit.portAddress n) = n.toUInt16 := by
  have bound := n.toNat_lt
  rw [← UInt16.toNat_inj, portNumber, UInt16.toNat_and, Circuit.portAddress, toNat_word]
  show (256 * n.toNat + n.toNat) &&& (2 ^ 8 - 1) = n.toNat
  rw [Nat.and_two_pow_sub_one_eq_mod]
  omega

/-- The shifter shows eight of the sixteen bits, those behind the first `offset` ones. -/
theorem Shifter.toNat_result (s : Shifter) :
    s.result.toNat = s.register.toNat * 2 ^ s.offset.val / 256 % 256 := by
  have place : (UInt16.ofNat s.offset.val).toNat % 16 = s.offset.val := by
    rw [UInt16.toNat_ofNat']
    omega
  rw [result, toNat_hiByte, UInt16.toNat_shiftLeft, place, Nat.shiftLeft_eq]
  exact Nat.mod_mul_right_div_self _ 256 256

/-! ### The buttons -/

theorem or_and_eq (x y z : UInt8) : (x ||| y) &&& z = x &&& z ||| y &&& z :=
  UInt8.toBitVec_inj.1 BitVec.and_or_distrib_right

namespace Button

variable (b c : Button)

theorem bit_ne_zero : b.bit ≠ 0 := by
  cases b <;> decide

theorem bit_and_bit : b.bit &&& c.bit = if b = c then b.bit else 0 := by
  cases b <;> cases c <;> rfl

theorem not_bit_and_bit : ~~~b.bit &&& c.bit = if b = c then 0 else c.bit := by
  cases b <;> cases c <;> rfl

theorem id_injective : Function.Injective id := by
  intro b c same
  cases b <;> cases c <;> first | rfl | contradiction

theorem ofId?_eq_some_iff {id : UInt8} : ofId? id = some b ↔ b.id = id := by
  constructor
  · intro found
    unfold ofId? at found
    have hit := List.find?_some found
    exact eq_of_beq hit
  · rintro rfl
    exact ofId?_id b

end Button

namespace Latch

/-- The button is seen as pressed. -/
def shows (latch : Latch) (b : Button) : Bool := latch.bits &&& b.bit != 0

theorem shows_idle (b : Button) : idle.shows b = false := by
  cases b <;> rfl

theorem shows_ofBits (v : UInt8) (b : Button) : (ofBits v).shows b = (v &&& b.bit != 0) := by
  have kept : 0x77 &&& b.bit = b.bit := by cases b <;> rfl
  have apart : 0x08 &&& b.bit = 0 := by cases b <;> rfl
  rw [shows, ofBits, or_and_eq, UInt8.and_assoc, kept, apart, UInt8.or_zero]

/-- **Pressing or releasing a button is seen there**, and at no other button. -/
theorem shows_set (latch : Latch) (b c : Button) (pressed : Bool) :
    (latch.set b pressed).shows c = if b = c then pressed else latch.shows c := by
  rw [set, shows_ofBits, shows]
  cases pressed with
  | true =>
    rw [if_pos rfl, or_and_eq, Button.bit_and_bit]
    split
    · rw [bne_iff_ne, Ne, UInt8.or_eq_zero_iff, not_and]
      exact fun _ => b.bit_ne_zero
    · rw [UInt8.or_zero]
  | false =>
    rw [if_neg Bool.false_ne_true, UInt8.and_assoc, Button.not_bit_and_bit]
    split
    · rw [UInt8.and_zero]
      rfl
    · rfl

/-- The latch at which the given buttons are pressed. -/
def ofPressed (pressed : Button → Bool) : Latch :=
  ⟨Button.all.foldl (fun bits b => if pressed b then bits ||| b.bit else bits) 0x08⟩

/-- The buttons and the wiring are all of a latch. -/
theorem Wired.eq_ofPressed {latch : Latch} (wired : latch.Wired) : latch = ofPressed latch.shows := by
  have bits : ∀ v : UInt8, v &&& 0x88 = 0x08 → v = (ofPressed (shows ⟨v⟩)).bits :=
    forall_byte (by decide +kernel)
  exact congrArg mk (bits latch.bits wired)

theorem eq_of_shows {l l' : Latch} (wired : l.Wired) (wired' : l'.Wired)
    (same : ∀ b, l.shows b = l'.shows b) : l = l' := by
  rw [wired.eq_ofPressed, wired'.eq_ofPressed, funext same]

/-- Events for distinct buttons commute. -/
theorem set_set (latch : Latch) {b b' : Button} (distinct : b ≠ b') (p p' : Bool) :
    (latch.set b p).set b' p' = (latch.set b' p').set b p := by
  -- Setting a button wires the latch, whatever it was before, so only the buttons have to be compared.
  refine eq_of_shows (wired_set ..) (wired_set ..) fun c => ?_
  simp only [shows_set]
  grind

end Latch

/-! ### Events -/

/-- What happens to a machine. -/
inductive Event where
  /-- An access of the processor. -/
  | access (x : Bus.Access)
  /-- What the owner does. -/
  | done (op : Operation)

namespace Event

/-- The switches that the event sets. -/
def dips? : Event → Option Dips
  | .done (.setDips dips) => some dips
  | _ => none

/-- Whether the event presses or releases the button, by itself or with all others. -/
def pressed? (b : Button) : Event → Option Bool
  | .done (.setInput id pressed) => if id = b.id then some pressed else none
  | .done (.setInputBits bits) => some (bits &&& b.bit != 0)
  | _ => none

/-- The byte that the event writes to the port. -/
def written? (port : UInt16) : Event → Option UInt8
  | .access x => if x.kind = .output ∧ Board.portNumber x.address = port then some x.value else none
  | _ => none

/-- The event concerns no device. -/
structure Silent (e : Event) : Prop where
  dips : e.dips? = none
  pressed : ∀ b, e.pressed? b = none
  offset : e.written? 2 = none
  data : e.written? 4 = none

theorem silent_access {x : Bus.Access} (h : x.kind ≠ .output) : Silent (.access x) :=
  ⟨rfl, fun _ => rfl, if_neg fun output => h output.1, if_neg fun output => h output.1⟩

theorem written?_output (port a : UInt16) (v : UInt8) :
    (access ⟨.output, a, v⟩).written? port = if Board.portNumber a = port then some v else none := by
  simp [written?]

end Event

/-! ### What the events tell -/

theorem filterMap_concat {α β : Type} (f : α → Option β) (l : List α) (a : α) :
    (l ++ [a]).filterMap f = l.filterMap f ++ (f a).toList := by
  rw [List.filterMap_append]
  cases h : f a with
  | none => simp [h]
  | some b => simp [h]

/-- What the last event that tells something tells, or a default if there is none. -/
def lastOf {α : Type} (tell : Event → Option α) (default : α) (past : List Event) : α :=
  (past.filterMap tell).getLastD default

/-- The last byte written to the data port of the shifter. -/
def lastData (past : List Event) : UInt8 := lastOf (Event.written? 4) 0 past

/-- The last byte but one. -/
def dataBefore (past : List Event) : UInt8 := (past.filterMap (Event.written? 4)).dropLast.getLastD 0

section Last

variable {α : Type} {tell : Event → Option α} {default a : α} {past : List Event} {e : Event}

theorem lastOf_none (h : tell e = none) : lastOf tell default (past ++ [e]) = lastOf tell default past := by
  rw [lastOf, filterMap_concat, h, Option.toList_none, List.append_nil]
  rfl

theorem lastOf_some (h : tell e = some a) : lastOf tell default (past ++ [e]) = a := by
  rw [lastOf, filterMap_concat, h, Option.toList_some, List.getLastD_concat]

theorem dataBefore_none (h : e.written? 4 = none) : dataBefore (past ++ [e]) = dataBefore past := by
  rw [dataBefore, filterMap_concat, h, Option.toList_none, List.append_nil]
  rfl

/-- Another byte moves the last one behind it. -/
theorem dataBefore_some {v : UInt8} (h : e.written? 4 = some v) :
    dataBefore (past ++ [e]) = lastData past := by
  rw [dataBefore, filterMap_concat, h, Option.toList_some, List.dropLast_concat]
  rfl

end Last

/-- What is read at a port after these events, of a machine that was given the switches. -/
def Answers (dips : Dips) (past : List Event) (port : UInt16) (v : UInt8) : Prop :=
  match port with
  | 0 => v = (lastOf Event.dips? dips past).first
  | 1 => v &&& 0x88 = 0x08 ∧ ∀ b : Button, (v &&& b.bit != 0) = lastOf (Event.pressed? b) false past
  | 2 => v = (lastOf Event.dips? dips past).third
  | 3 => v.toNat = (256 * (lastData past).toNat + (dataBefore past).toNat) *
      2 ^ ((lastOf (Event.written? 2) 0 past).toNat % 8) / 256 % 256
  | _ => v = 0

/-- The devices of the board summarise the events. -/
structure Shows (dips : Dips) (past : List Event) (board : Board) : Prop where
  /-- The switches are as they were last set. -/
  dips_eq : board.dips = lastOf Event.dips? dips past
  /-- The register of the shifter is the last two bytes. -/
  register_eq : board.shifter.register = word (lastData past) (dataBefore past)
  /-- Its offset is the last one. -/
  offset_eq : board.shifter.offset = Shifter.offsetOf (lastOf (Event.written? 2) 0 past)
  /-- The latch is as wired. -/
  wired : board.latch.Wired
  /-- Every button is as it was last pressed or released. -/
  shows : ∀ b, board.latch.shows b = lastOf (Event.pressed? b) false past

variable {dips : Dips} {past : List Event} {board : Board} {e : Event}

/-- **What is read at a port is what the events tell.** -/
theorem Shows.answers (h : Shows dips past board) (a : UInt16) :
    Answers dips past (Board.portNumber a) (board.input a) := by
  unfold Answers Board.input
  generalize Board.portNumber a = port
  split
  · exact congrArg Dips.first h.dips_eq
  · exact ⟨h.wired, h.shows⟩
  · exact congrArg Dips.third h.dips_eq
  · show board.shifter.result.toNat = _
    rw [Shifter.toNat_result, h.register_eq, h.offset_eq, toNat_word]
    rfl
  · split <;> first | contradiction | rfl

/-! ### One event -/

section Untold

variable (h : Shows dips past board)
include h

theorem Shows.dips_eq_of_none (set : e.dips? = none) :
    board.dips = lastOf Event.dips? dips (past ++ [e]) :=
  h.dips_eq.trans (lastOf_none set).symm

theorem Shows.register_eq_of_none (data : e.written? 4 = none) :
    board.shifter.register = word (lastData (past ++ [e])) (dataBefore (past ++ [e])) := by
  rw [lastData, lastOf_none data, dataBefore_none data]
  exact h.register_eq

theorem Shows.offset_eq_of_none (offset : e.written? 2 = none) :
    board.shifter.offset = Shifter.offsetOf (lastOf (Event.written? 2) 0 (past ++ [e])) := by
  rw [lastOf_none offset]
  exact h.offset_eq

theorem Shows.shows_of_none {b : Button} (pressed : e.pressed? b = none) :
    board.latch.shows b = lastOf (Event.pressed? b) false (past ++ [e]) :=
  (h.shows b).trans (lastOf_none pressed).symm

end Untold

/-- An event that concerns no device leaves all as it is. -/
theorem Shows.silent (h : Shows dips past board) (silent : e.Silent) (memory : AddressSpace) :
    Shows dips (past ++ [e]) { board with memory } where
  dips_eq := h.dips_eq_of_none silent.dips
  register_eq := h.register_eq_of_none silent.data
  offset_eq := h.offset_eq_of_none silent.offset
  wired := h.wired
  shows b := h.shows_of_none (silent.pressed b)

/-- A write to the offset port sets the offset. -/
theorem Shows.setOffset (h : Shows dips past board) {a : UInt16} (v : UInt8)
    (two : Board.portNumber a = 2) :
    Shows dips (past ++ [.access ⟨.output, a, v⟩])
      { board with shifter := board.shifter.setOffset v } where
  dips_eq := h.dips_eq_of_none rfl
  register_eq := by
    refine h.register_eq_of_none ?_
    rw [Event.written?_output, two]
    rfl
  offset_eq := by
    rw [lastOf_some ((Event.written?_output 2 a v).trans (if_pos two))]
    rfl
  wired := h.wired
  shows b := h.shows_of_none rfl

/-- A write to the data port moves a byte into the register. -/
theorem Shows.pushData (h : Shows dips past board) {a : UInt16} (v : UInt8)
    (four : Board.portNumber a = 4) :
    Shows dips (past ++ [.access ⟨.output, a, v⟩])
      { board with shifter := board.shifter.pushData v } where
  dips_eq := h.dips_eq_of_none rfl
  register_eq := by
    have data := (Event.written?_output 4 a v).trans (if_pos four)
    rw [lastData, lastOf_some data, dataBefore_some data]
    show word v (hiByte board.shifter.register) = _
    rw [h.register_eq, hiByte_word]
  offset_eq := by
    refine h.offset_eq_of_none ?_
    rw [Event.written?_output, four]
    rfl
  wired := h.wired
  shows b := h.shows_of_none rfl

/-- A write to any other port has no effect. -/
theorem Board.output_of_ne {a : UInt16} (v : UInt8) (two : Board.portNumber a ≠ 2)
    (four : Board.portNumber a ≠ 4) (board : Board) : board.output a v = board := by
  unfold output
  split
  · contradiction
  · contradiction
  · rfl

theorem Shows.output (h : Shows dips past board) (a : UInt16) (v : UInt8) :
    Shows dips (past ++ [.access ⟨.output, a, v⟩]) (board.output a v) := by
  -- The two ports of the shifter, and all others.
  by_cases two : Board.portNumber a = 2
  · have eq : board.output a v = { board with shifter := board.shifter.setOffset v } := by
      rw [Board.output, two]
      rfl
    exact eq ▸ h.setOffset v two
  by_cases four : Board.portNumber a = 4
  · have eq : board.output a v = { board with shifter := board.shifter.pushData v } := by
      rw [Board.output, four]
      rfl
    exact eq ▸ h.pushData v four
  · have silent : (Event.access ⟨.output, a, v⟩).Silent :=
      ⟨rfl, fun _ => rfl, (Event.written?_output 2 a v).trans (if_neg two),
        (Event.written?_output 4 a v).trans (if_neg four)⟩
    rw [Board.output_of_ne v two four]
    exact h.silent silent board.memory

/-- The switches are set. -/
theorem Shows.setDips (h : Shows dips past board) (set : Dips) :
    Shows dips (past ++ [.done (.setDips set)]) { board with dips := set } where
  dips_eq := by rw [lastOf_some (a := set) rfl]
  register_eq := h.register_eq_of_none rfl
  offset_eq := h.offset_eq_of_none rfl
  wired := h.wired
  shows b := h.shows_of_none rfl

/-- All buttons are set at once. -/
theorem Shows.setInputBits (h : Shows dips past board) (bits : UInt8) :
    Shows dips (past ++ [.done (.setInputBits bits)]) { board with latch := .ofBits bits } where
  dips_eq := h.dips_eq_of_none rfl
  register_eq := h.register_eq_of_none rfl
  offset_eq := h.offset_eq_of_none rfl
  wired := Latch.wired_ofBits bits
  shows b := by rw [Latch.shows_ofBits, lastOf_some (a := bits &&& b.bit != 0) rfl]

/-- A button is pressed or released. -/
theorem Shows.setInput (h : Shows dips past board) (b : Button) (pressed : Bool) :
    Shows dips (past ++ [.done (.setInput b.id pressed)])
      { board with latch := board.latch.set b pressed } where
  dips_eq := h.dips_eq_of_none rfl
  register_eq := h.register_eq_of_none rfl
  offset_eq := h.offset_eq_of_none rfl
  wired := Latch.wired_set ..
  shows c := by
    rw [Latch.shows_set]
    split
    · rename_i same
      subst same
      rw [lastOf_some (if_pos rfl)]
    · rename_i other
      exact h.shows_of_none (if_neg fun same => other (Button.id_injective same))

/-- **The owner does something** other than running the machine, starting anew or putting a record back. -/
theorem Shows.perform {m : Machine} (h : Shows dips past m.board) {op : Operation}
    (goesOn : op.goesOn = true) (rests : op.runs = false) :
    Shows dips (past ++ [.done op]) (m.perform op).2.board := by
  cases op with
  | stepFrame | stepCycles => cases rests
  | reset | load | restore => cases goesOn
  | setDips set => exact h.setDips set
  | setInputBits bits => exact h.setInputBits bits
  | setInput id pressed =>
    cases found : Button.ofId? id with
    | some b =>
      obtain rfl := (b.ofId?_eq_some_iff).1 found
      simp only [Machine.perform, Machine.setInput, found]
      exact h.setInput b pressed
    | none =>
      simp only [Machine.perform, Machine.setInput, found]
      have unknown (b : Button) : id ≠ b.id := by
        rintro rfl
        rw [Button.ofId?_id] at found
        cases found
      have silent : (Event.done (.setInput id pressed)).Silent :=
        ⟨rfl, fun b => if_neg (unknown b), rfl, rfl⟩
      exact h.silent silent m.board.memory
  | setSpeed | setUncapped | setMap => exact h.silent ⟨rfl, fun _ => rfl, rfl, rfl⟩ m.board.memory
  | write a v => exact h.silent ⟨rfl, fun _ => rfl, rfl, rfl⟩ (m.board.memory.write a v)
  | updatePixels =>
    show Shows dips _ m.updatePixels.circuit.bus
    rw [Machine.circuit_updatePixels]
    exact h.silent ⟨rfl, fun _ => rfl, rfl, rfl⟩ m.board.memory

/-! ### What is answered -/

/-- Every read of a port among the events is answered by what the events before it tell. -/
def Answered (dips : Dips) (past : List Event) : List Event → Prop
  | [] => True
  | e :: es =>
    (∀ x, e = .access x → x.kind = .input → Answers dips past (Board.portNumber x.address) x.value) ∧
      Answered dips (past ++ [e]) es

theorem answered_append {es es' : List Event} :
    Answered dips past (es ++ es') ↔ Answered dips past es ∧ Answered dips (past ++ es) es' := by
  induction es generalizing past with
  | nil => simp [Answered]
  | cons e es ih => simp [Answered, ih, and_assoc]

/-! ### The processor runs -/

/-- The accesses so far, as events. -/
def Traced.events (t : Traced Board) : List Event := t.trace.toList.map .access

theorem Traced.events_record (t : Traced Board) (kind : Bus.Kind) (a : UInt16) (v : UInt8)
    (board : Board) :
    (t.record kind a v board).events = t.events ++ [.access ⟨kind, a, v⟩] := by
  simp [events, record]

/-- The accesses so far were answered by what was before them, and the board summarises them. -/
structure Followed (dips : Dips) (past : List Event) (t : Traced Board) : Prop where
  shows : Shows dips (past ++ t.events) t.bus
  answered : Answered dips past t.events

theorem Followed.record {t : Traced Board} (h : Followed dips past t) {kind : Bus.Kind} {a : UInt16}
    {v : UInt8} (shows : Shows dips (past ++ t.events ++ [.access ⟨kind, a, v⟩]) board)
    (answer : kind = .input → Answers dips (past ++ t.events) (Board.portNumber a) v) :
    Followed dips past (t.record kind a v board) where
  shows := by
    rw [Traced.events_record, ← List.append_assoc]
    exact shows
  answered := by
    rw [Traced.events_record, answered_append]
    refine ⟨h.answered, ?_, trivial⟩
    rintro x ⟨⟩ input
    exact answer input

/-- **One more access is followed**, whichever it is. -/
theorem keeps_followed (dips : Dips) (past : List Event) : Bus.Keeps (Followed dips past) where
  read a t h := by
    have silent : (Event.access ⟨.read, a, (Bus.read a t.bus).1⟩).Silent :=
      Event.silent_access nofun
    exact h.record (h.shows.silent silent t.bus.memory) nofun
  write a v t h := by
    have silent : (Event.access ⟨.write, a, v⟩).Silent := Event.silent_access nofun
    exact h.record (h.shows.silent silent _) nofun
  input a t h := by
    have silent : (Event.access ⟨.input, a, (Bus.input a t.bus).1⟩).Silent :=
      Event.silent_access nofun
    exact h.record (h.shows.silent silent t.bus.memory) (fun _ => h.shows.answers a)
  output a v t h := h.record (h.shows.output a v) nofun

namespace Machine

variable {m : Machine} {op : Operation}

/-- What happens during an operation. -/
def events (m : Machine) (op : Operation) : List Event :=
  if op.runs then (m.accesses op).toList.map .access else [.done op]

/-- What happens during one operation after the other. -/
def history (m : Machine) : List Operation → List Event
  | [] => []
  | op :: ops => m.events op ++ (m.perform op).2.history ops

theorem followed_tracedRun (h : Shows dips past m.board) (runs : op.runs = true) :
    Followed dips past (m.tracedRun op).bus := by
  have start : Followed dips past m.circuit.traced.bus :=
    ⟨(List.append_nil past).symm ▸ h, trivial⟩
  cases op with
  | stepFrame => exact frame_keeps (keeps_followed dips past) start
  | stepCycles budget => exact Circuit.execute_keeps (keeps_followed dips past) start budget
  | _ => cases runs

/-- **An operation is followed**, whether the processor runs or the owner does something. -/
theorem shows_perform (h : Shows dips past m.board) (goesOn : op.goesOn = true) :
    Shows dips (past ++ m.events op) (m.perform op).2.board ∧ Answered dips past (m.events op) := by
  unfold events
  split
  · rename_i runs
    -- The board that is observed is the one that the machine is left with.
    have followed := followed_tracedRun h runs
    have same : (m.tracedRun op).bus.bus = (m.perform op).2.board := (m.alike_tracedRun runs).bus
    exact ⟨same ▸ followed.shows, followed.answered⟩
  · rename_i rests
    refine ⟨h.perform goesOn (Bool.eq_false_iff.2 rests), ?_, trivial⟩
    rintro x ⟨⟩

/-- **Any number of operations is followed.** -/
theorem shows_performAll (h : Shows dips past m.board) {ops : List Operation}
    (goesOn : ∀ op ∈ ops, op.goesOn = true) :
    Shows dips (past ++ m.history ops) (m.performAll ops).2.board ∧
      Answered dips past (m.history ops) := by
  induction ops generalizing m past with
  | nil => exact ⟨(List.append_nil past).symm ▸ h, trivial⟩
  | cons op ops ih =>
    obtain ⟨first, answered⟩ := shows_perform h (goesOn op (List.mem_cons_self ..))
    obtain ⟨rest, answered'⟩ := ih first fun op hop => goesOn op (List.mem_cons_of_mem _ hop)
    rw [history, ← List.append_assoc, answered_append]
    exact ⟨rest, answered, answered'⟩

/-! ### Machines to begin with -/

/-- A machine that was built with the switches, or starts anew with them. -/
inductive Begins : Dips → Machine → Prop where
  /-- It is built from chips by themselves. -/
  | ofChips {chips : Chips} {settings : Settings} {m : Machine} (h : ofChips chips settings = .ok m) :
      Begins settings.dips m
  /-- It is built from a ROM set. -/
  | ofRomSet {set : RomSet} {settings : Settings} {m : Machine} (h : ofRomSet set settings = .ok m) :
      Begins settings.dips m
  /-- It is built from a ROM set of the known program. -/
  | ofRomSetStrict {set : RomSet} {settings : Settings} {m : Machine}
      (h : ofRomSetStrict set settings = .ok m) : Begins settings.dips m
  /-- It starts anew, whatever has happened to it. -/
  | reset (m : Machine) : Begins m.settings.dips m.reset

/-- A board whose devices are as in the beginning. -/
theorem shows_nil (memory : AddressSpace) (dips : Dips) : Shows dips [] { memory, dips } :=
  ⟨rfl, rfl, rfl, Latch.wired_idle, Latch.shows_idle⟩

theorem shows_ofProgram {program : RomImage} {settings : Settings}
    (h : ofProgram program settings = .ok m) : Shows settings.dips [] m.board := by
  obtain ⟨memory, -, built⟩ := bind_eq_ok_iff.1 h
  cases built
  exact shows_nil memory settings.dips

theorem Begins.shows (h : m.Begins dips) : Shows dips [] m.board := by
  cases h with
  | ofChips h | ofRomSet h | ofRomSetStrict h =>
    obtain ⟨program, -, built⟩ := bind_eq_ok_iff.1 h
    exact shows_ofProgram built
  | reset m => exact shows_nil _ m.board.dips

/-! ### What the owner does commutes -/

theorem setInput_of_none {id : UInt8} (unknown : Button.ofId? id = none) (m : Machine)
    (pressed : Bool) : m.setInput id pressed = m := by
  rw [setInput, unknown]

theorem setInput_of_some {id : UInt8} {b : Button} (known : Button.ofId? id = some b) (m : Machine)
    (pressed : Bool) :
    m.setInput id pressed = m.mapBoard fun board =>
      { board with latch := board.latch.set b pressed } := by
  rw [setInput, known]

/-- **Events for distinct buttons commute.** -/
theorem setInput_setInput {id id' : UInt8} (distinct : id ≠ id') (m : Machine) (p p' : Bool) :
    (m.setInput id p).setInput id' p' = (m.setInput id' p').setInput id p := by
  cases known : Button.ofId? id with
  | none => rw [setInput_of_none known, setInput_of_none known]
  | some b =>
    cases known' : Button.ofId? id' with
    | none => rw [setInput_of_none known', setInput_of_none known']
    | some b' =>
      have apart : b ≠ b' := by
        rintro rfl
        exact distinct ((b.ofId?_eq_some_iff.1 known).symm.trans (b.ofId?_eq_some_iff.1 known'))
      rw [setInput_of_some known, setInput_of_some known', setInput_of_some known',
        setInput_of_some known]
      simp only [mapBoard, Latch.set_set _ apart]

/-! ### The whole history -/

/-- **The ports tell the history.** A machine is built, or starts anew, and then any program runs while
the owner presses buttons and sets switches, in any order; no record is put back and it does not start
anew again. Then each port that the processor reads is answered by what has happened until then
(`Answers`), and so is any port that it would read next. What it writes to a port other than those of the
shifter leaves the whole board as it is. Events for distinct buttons commute, and the number of no button
changes nothing. -/
theorem ports_tell_history (begins : m.Begins dips) {ops : List Operation}
    (goesOn : ∀ op ∈ ops, op.goesOn = true) :
    (∀ before x after, m.history ops = before ++ .access x :: after → x.kind = .input →
      Answers dips before (Board.portNumber x.address) x.value) ∧
    (∀ a, Answers dips (m.history ops) (Board.portNumber a) (Bus.input a (m.performAll ops).2.board).1) ∧
    (∀ n, Board.portNumber (Circuit.portAddress n) = n.toUInt16) ∧
    (∀ a v (board : Board), Board.portNumber a ≠ 2 → Board.portNumber a ≠ 4 →
      Bus.output a v board = board) ∧
    (∀ (n : Machine) (id id' : UInt8) (p p' : Bool), id ≠ id' →
      (n.setInput id p).setInput id' p' = (n.setInput id' p').setInput id p) ∧
    (∀ (n : Machine) (id : UInt8) (p : Bool), (∀ b : Button, b.id ≠ id) → n.setInput id p = n) := by
  obtain ⟨shows, answered⟩ := shows_performAll begins.shows goesOn
  refine ⟨?_, shows.answers, ?_, ?_, ?_, ?_⟩
  · intro before x after split input
    rw [split, answered_append] at answered
    exact answered.2.1 x rfl input
  · exact Board.portNumber_portAddress
  · intro a v board two four
    exact board.output_of_ne v two four
  · intro n id id' p p' distinct
    exact setInput_setInput distinct n p p'
  · intro n id p unknown
    refine setInput_of_none ?_ n p
    cases found : Button.ofId? id with
    | none => rfl
    | some b => exact absurd (b.ofId?_eq_some_iff.1 found) (unknown b)

/-- The fire button is pressed, and then a burst runs. -/
def firing : List Operation := [.setInput 3 true, .stepCycles 10]

theorem Built.press {chips : Chips} (h : m.Built chips) :
    (m.perform (.setInput 3 true)).2.board.latch.bits = 0x18 ∧
      (m.perform (.setInput 3 true)).2.circuit.cpu = .atReset resetVector := by
  obtain ⟨program, settings, hp, rfl⟩ := h.exists_fresh
  have known : Button.ofId? 3 = some .fire := Button.ofId?_id .fire
  rw [perform, setInput_of_some known]
  exact ⟨(by decide : (Latch.idle.set .fire true).bits = 0x18), rfl⟩

/-- A program that reads port 1 finds it pressed, and this is what the events tell. -/
theorem polling_ports : (coded polling).Begins .factory ∧ (∀ op ∈ firing, op.goesOn = true) ∧
    ∃ before after, (coded polling).history firing = before ++ .access ⟨.input, 0x0101, 0x18⟩ :: after ∧
      Answers .factory before 1 0x18 := by
  have begins : (coded polling).Begins (Settings.dips .standard) := .ofChips (eq_ok_resultOf _)
  have goesOn : ∀ op ∈ firing, op.goesOn = true := by simp [firing, Operation.goesOn]
  obtain ⟨answered, -⟩ := ports_tell_history begins goesOn
  have built := built_coded polling
  obtain ⟨bits, cpu⟩ := built.press
  have read := accesses_polling ((Reachable.built built).perform (.setInput 3 true)) cpu
  rw [bits] at read
  obtain ⟨first, last, split⟩ := List.append_of_mem (Array.mem_toList_iff.2 read)
  have history : (coded polling).history firing =
      (.done (.setInput 3 true) :: first.map .access) ++
        .access ⟨.input, 0x0101, 0x18⟩ :: last.map .access := by
    have pressing : (coded polling).events (.setInput 3 true) = [.done (.setInput 3 true)] :=
      if_neg Bool.false_ne_true
    have running (n : Machine) :
        n.events (.stepCycles 10) = (n.accesses (.stepCycles 10)).toList.map .access := if_pos rfl
    rw [firing, Machine.history, Machine.history, Machine.history, pressing, running, split]
    simp
  exact ⟨begins, goesOn, _, _, history, answered _ _ _ history rfl⟩

end Machine

end Cabinet
