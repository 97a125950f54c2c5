import Cabinet.Cpu.Instruction
/-!
# Parts of the processor

The processor is taken apart into its parts (`Cpu.Part`), of which the program counter is none: it always
moves. What a processor has become differs from what it was in some parts at most (`Cpu.Differs`). This
is known here of each change that instructions are made of; where one change comes behind another, the
parts are put together (`Cpu.Differs.trans`). If there are none, only the program counter may have moved
(`Cpu.Differs.eq_of_nil`).
-/

namespace Cabinet

namespace Cpu

/-! ### Parts of the processor -/

/-- A part of the processor other than the program counter. -/
inductive Part where
  | reg (r : Reg)
  | sign | zero | auxCarry | parity | carry
  | sp | inte | halted | pending
deriving DecidableEq

/-- A part is the same in both processors. -/
def Part.Same (c c' : Cpu) : Part → Prop
  | .reg r => c'.reg r = c.reg r
  | .sign => c'.flags.sign = c.flags.sign
  | .zero => c'.flags.zero = c.flags.zero
  | .auxCarry => c'.flags.auxCarry = c.flags.auxCarry
  | .parity => c'.flags.parity = c.flags.parity
  | .carry => c'.flags.carry = c.flags.carry
  | .sp => c'.sp = c.sp
  | .inte => c'.inte = c.inte
  | .halted => c'.halted = c.halted
  | .pending => c'.pending = c.pending

/-- Between the two processors, at most these parts and the program counter have changed. -/
def Differs (parts : List Part) (c c' : Cpu) : Prop := ∀ part, part ∉ parts → part.Same c c'

variable {parts parts' : List Part} {c c' c'' : Cpu}

theorem Part.same_refl (c : Cpu) (part : Part) : part.Same c c := by
  cases part <;> rfl

theorem Part.Same.trans {part : Part} (h : part.Same c c') (h' : part.Same c' c'') : part.Same c c'' := by
  cases part <;> exact Eq.trans h' h

theorem Differs.refl (parts : List Part) (c : Cpu) : Differs parts c c := fun part _ => part.same_refl c

theorem Differs.trans (h : Differs parts c c') (h' : Differs parts' c' c'') :
    Differs (parts ++ parts') c c'' := fun part off =>
  (h part fun mem => off (List.mem_append_left _ mem)).trans
    (h' part fun mem => off (List.mem_append_right _ mem))

/-- The parts are all that there is but the program counter. -/
theorem Differs.eq_of_nil (h : Differs [] c c') : c' = { c with pc := c'.pc } := by
  have same (part : Part) : part.Same c c' := h part List.not_mem_nil
  have flags : c'.flags = c.flags := by
    rw [Flags.mk.injEq]
    exact ⟨same .sign, same .zero, same .auxCarry, same .parity, same .carry⟩
  rw [Cpu.mk.injEq]
  exact ⟨same (.reg .a), same (.reg .b), same (.reg .c), same (.reg .d), same (.reg .e), same (.reg .h),
    same (.reg .l), flags, same .sp, rfl, same .inte, same .halted, same .pending⟩

end Cpu

/-! ### Parts that are named together -/

/-- All flags. -/
def Flags.parts : List Cpu.Part := [.sign, .zero, .auxCarry, .parity, .carry]

/-- The registers of a pair. -/
def Pair.parts : Pair → List Cpu.Part
  | .bc => [.reg .b, .reg .c]
  | .de => [.reg .d, .reg .e]
  | .hl => [.reg .h, .reg .l]
  | .sp => [.sp]

/-- What POP loads, beside the stack pointer. -/
def StackPair.parts : StackPair → List Cpu.Part
  | .bc => [.reg .b, .reg .c]
  | .de => [.reg .d, .reg .e]
  | .hl => [.reg .h, .reg .l]
  | .psw => .reg .a :: Flags.parts

/-- A byte operand as a destination; memory is no part of the processor. -/
def Operand.parts : Operand → List Cpu.Part
  | .reg r => [.reg r]
  | .mem => []

/-- The destination of an arithmetic operation, and the flags; a comparison has none. -/
def AluOp.parts : AluOp → List Cpu.Part
  | .cmp => Flags.parts
  | _ => .reg .a :: Flags.parts

/-! ### What changes are made of -/

namespace Cpu

theorem differs_pc (c : Cpu) (pc : UInt16) : Differs [] c { c with pc } := fun part _ => by
  cases part <;> rfl

theorem differs_sp (c : Cpu) (sp : UInt16) : Differs [.sp] c { c with sp } := fun part off => by
  cases part with
  | sp => simp at off
  | _ => rfl

theorem differs_inte (c : Cpu) (inte : Bool) : Differs [.inte] c { c with inte } := fun part off => by
  cases part with
  | inte => simp at off
  | _ => rfl

theorem differs_halted (c : Cpu) (halted : Bool) : Differs [.halted] c { c with halted } :=
  fun part off => by
    cases part with
    | halted => simp at off
    | _ => rfl

theorem differs_flags (c : Cpu) (flags : Flags) : Differs Flags.parts c { c with flags } :=
  fun part off => by
    cases part with
    | sign | zero | auxCarry | parity | carry => simp [Flags.parts] at off
    | _ => rfl

theorem differs_setCarry (c : Cpu) (on : Bool) : Differs [.carry] c (c.setCarry on) :=
  fun part off => by
    cases part with
    | carry => simp at off
    | _ => rfl

theorem differs_setReg (c : Cpu) (r : Reg) (v : UInt8) : Differs [.reg r] c (c.setReg r v) :=
  fun part off => by
    cases part with
    | reg r' =>
      have other : r' ≠ r := by simpa using off
      cases r <;> cases r' <;> first | rfl | exact absurd rfl other
    | _ => cases r <;> rfl

theorem differs_setReg_setReg (c : Cpu) (r r' : Reg) (v v' : UInt8) :
    Differs [.reg r, .reg r'] c ((c.setReg r v).setReg r' v') :=
  (differs_setReg c r v).trans (differs_setReg _ r' v')

theorem differs_h_l (c : Cpu) (h l : UInt8) : Differs [.reg .h, .reg .l] c { c with h, l } :=
  differs_setReg_setReg c .h .l h l

theorem differs_a_flags (c : Cpu) (a : UInt8) (flags : Flags) :
    Differs (.reg .a :: Flags.parts) c { c with a, flags } :=
  (differs_setReg c .a a).trans (differs_flags (c.setReg .a a) flags)

theorem differs_a_carry (c : Cpu) (a : UInt8) (on : Bool) :
    Differs [.reg .a, .carry] c ({ c with a }.setCarry on) :=
  (differs_setReg c .a a).trans (differs_setCarry (c.setReg .a a) on)

theorem differs_flags_of_carry_eq (c : Cpu) {flags : Flags} (carry : flags.carry = c.flags.carry) :
    Differs [.sign, .zero, .auxCarry, .parity] c { c with flags } := fun part off => by
  cases part with
  | sign | zero | auxCarry | parity => simp at off
  | carry => exact carry
  | _ => rfl

theorem differs_setPair (c : Cpu) (p : Pair) (w : UInt16) : Differs p.parts c (c.setPair p w) := by
  cases p with
  | bc => exact differs_setReg_setReg c .b .c (hiByte w) (loByte w)
  | de => exact differs_setReg_setReg c .d .e (hiByte w) (loByte w)
  | hl => exact differs_setReg_setReg c .h .l (hiByte w) (loByte w)
  | sp => exact differs_sp c w

theorem differs_setStackPair (c : Cpu) (p : StackPair) (w : UInt16) :
    Differs p.parts c (c.setStackPair p w) := by
  cases p with
  | bc => exact differs_setPair c .bc w
  | de => exact differs_setPair c .de w
  | hl => exact differs_setPair c .hl w
  | psw => exact differs_a_flags c (hiByte w) (.ofByte (loByte w))

theorem differs_alu (c : Cpu) (op : AluOp) (v : UInt8) : Differs op.parts c (c.alu op v) := by
  cases op with
  -- A comparison writes the accumulator back.
  | cmp => exact differs_flags c (Alu.apply .cmp c.a v c.flags.carry).2
  | _ => exact differs_a_flags c _ _

end Cpu

end Cabinet
