import Cabinet.Board
import Cabinet.Proofs.Cpu.Simulation
/-!
# What an access to the board does

An access of the processor changes memory or the shifter and nothing else of the board
(`Board.keeps_fixed`), and what it is answered with does not depend on the second bank of switches
(`Board.SameView.simulation`).
-/

namespace Cabinet.Board

/-! ### What is changed -/

theorem output_eq_shifter (board : Board) (a : UInt16) (v : UInt8) :
    ∃ shifter, board.output a v = { board with shifter } := by
  unfold output
  split <;> exact ⟨_, rfl⟩

/-- **An access changes memory and the shifter only**: every other view of the board stays as it is. -/
theorem keeps_fixed {α : Type} (view : Board → α)
    (fixed : ∀ board memory shifter, view { board with memory, shifter } = view board) (x : α) :
    Bus.Keeps fun board => view board = x where
  read _ _ h := h
  write a v board h := (fixed board (board.memory.write a v) board.shifter).trans h
  input _ _ h := h
  output a v board h := by
    obtain ⟨shifter, eq⟩ := board.output_eq_shifter a v
    show view (board.output a v) = x
    rw [eq]
    exact (fixed board board.memory shifter).trans h

theorem keeps_latch (latch : Latch) : Bus.Keeps fun board : Board => board.latch = latch :=
  keeps_fixed Board.latch (fun _ _ _ => rfl) latch

theorem keeps_dips (dips : Dips) : Bus.Keeps fun board : Board => board.dips = dips :=
  keeps_fixed Board.dips (fun _ _ _ => rfl) dips

/-! ### What is answered -/

/-- Two boards that differ in the second bank of switches at most. -/
structure SameView (s t : Board) : Prop where
  /-- The same memory. -/
  memory : s.memory = t.memory
  /-- The same state of the shifter. -/
  shifter : s.shifter = t.shifter
  /-- The same buttons. -/
  latch : s.latch = t.latch
  /-- The same switches at port 0. -/
  first : s.dips.first = t.dips.first
  /-- The same switches at port 2. -/
  third : s.dips.third = t.dips.third

variable {s t u : Board}

theorem SameView.refl (s : Board) : SameView s s := ⟨rfl, rfl, rfl, rfl, rfl⟩

theorem SameView.symm (h : SameView s t) : SameView t s :=
  ⟨h.memory.symm, h.shifter.symm, h.latch.symm, h.first.symm, h.third.symm⟩

theorem SameView.trans (h : SameView s t) (h' : SameView t u) : SameView s u :=
  ⟨h.memory.trans h'.memory, h.shifter.trans h'.shifter, h.latch.trans h'.latch,
    h.first.trans h'.first, h.third.trans h'.third⟩

theorem SameView.input_eq (h : SameView s t) (a : UInt16) : s.input a = t.input a := by
  unfold input
  rw [h.first, h.latch, h.third, h.shifter]

theorem SameView.write (h : SameView s t) (a : UInt16) (v : UInt8) :
    SameView { s with memory := s.memory.write a v } { t with memory := t.memory.write a v } :=
  ⟨congrArg (·.write a v) h.memory, h.shifter, h.latch, h.first, h.third⟩

theorem SameView.output (h : SameView s t) (a : UInt16) (v : UInt8) :
    SameView (s.output a v) (t.output a v) := by
  unfold Board.output
  split
  · exact ⟨h.memory, congrArg (·.setOffset v) h.shifter, h.latch, h.first, h.third⟩
  · exact ⟨h.memory, congrArg (·.pushData v) h.shifter, h.latch, h.first, h.third⟩
  · exact h

/-- **No access tells the second bank of switches.** -/
theorem SameView.simulation : Bus.Simulation SameView where
  read a _ _ h := ⟨congrArg (·.read a) h.memory, h⟩
  write a v _ _ h := h.write a v
  input a _ _ h := ⟨h.input_eq a, h⟩
  output a v _ _ h := h.output a v

end Cabinet.Board
