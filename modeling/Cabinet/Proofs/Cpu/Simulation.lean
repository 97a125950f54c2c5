import Cabinet.Cpu.Run
/-!
# Buses that answer alike

If two buses answer every access alike, a processor cannot tell them apart: a burst leaves it in the
same state on both, at the same cost (`Circuit.Alike.execute`). In particular, what every access to
one bus keeps is kept by a burst (`Circuit.execute_keeps`).
-/

namespace Cabinet

/-- `R` relates states of two buses that answer every access alike, and each access leads to related
states again. -/
structure Bus.Simulation {σ τ : Type} [Bus σ] [Bus τ] (R : σ → τ → Prop) : Prop where
  /-- Both hold the same byte. -/
  read : ∀ (a : UInt16) {s t}, R s t →
    (Bus.read a s).1 = (Bus.read a t).1 ∧ R (Bus.read a s).2 (Bus.read a t).2
  /-- Both take the byte. -/
  write : ∀ (a : UInt16) (x : UInt8) {s t}, R s t → R (Bus.write a x s) (Bus.write a x t)
  /-- Both show the same byte at the port. -/
  input : ∀ (a : UInt16) {s t}, R s t →
    (Bus.input a s).1 = (Bus.input a t).1 ∧ R (Bus.input a s).2 (Bus.input a t).2
  /-- Both take the byte at the port. -/
  output : ∀ (a : UInt16) (x : UInt8) {s t}, R s t → R (Bus.output a x s) (Bus.output a x t)

namespace Circuit

variable {σ τ α : Type}

/-- The same processor on related buses. -/
inductive Alike (R : σ → τ → Prop) : Circuit σ → Circuit τ → Prop where
  | mk (cpu : Cpu) {s : σ} {t : τ} (h : R s t) : Alike R ⟨cpu, s⟩ ⟨cpu, t⟩

/-- The same answer, and the same processor on related buses. -/
inductive SameAnswer (R : σ → τ → Prop) : α × Circuit σ → α × Circuit τ → Prop where
  | mk (a : α) {w : Circuit σ} {v : Circuit τ} (h : Alike R w v) : SameAnswer R (a, w) (a, v)

variable {R : σ → τ → Prop} {w : Circuit σ} {v : Circuit τ}

theorem SameAnswer.exists_eq {x : α × Circuit σ} {y : α × Circuit τ} (h : SameAnswer R x y) :
    ∃ a cpu s t, R s t ∧ x = (a, ⟨cpu, s⟩) ∧ y = (a, ⟨cpu, t⟩) := by
  obtain ⟨a, cpu, h⟩ := h
  exact ⟨a, cpu, _, _, h, rfl, rfl⟩

theorem Alike.cpu_eq (h : Alike R w v) : w.cpu = v.cpu := by
  cases h with
  | mk cpu h => rfl

theorem Alike.bus (h : Alike R w v) : R w.bus v.bus := by
  cases h with
  | mk cpu h => exact h

theorem SameAnswer.alike {x : α × Circuit σ} {y : α × Circuit τ} (h : SameAnswer R x y) :
    Alike R x.2 y.2 := by
  cases h with
  | mk a h => exact h

theorem SameAnswer.answer_eq {x : α × Circuit σ} {y : α × Circuit τ} (h : SameAnswer R x y) :
    x.1 = y.1 := by
  cases h with
  | mk a h => rfl

theorem alike_iff : Alike R w v ↔ w.cpu = v.cpu ∧ R w.bus v.bus := by
  refine ⟨fun h => ⟨h.cpu_eq, h.bus⟩, fun ⟨cpu, bus⟩ => ?_⟩
  obtain ⟨c, s⟩ := w
  cases cpu
  exact .mk _ bus

theorem Alike.mapCpu (h : Alike R w v) (f : Cpu → Cpu) : Alike R (w.mapCpu f) (v.mapCpu f) := by
  obtain ⟨cpu, h⟩ := h
  exact ⟨f cpu, h⟩

theorem Alike.jump (h : Alike R w v) (target : UInt16) : Alike R (w.jump target) (v.jump target) :=
  h.mapCpu _

variable [Bus σ] [Bus τ] (hR : Bus.Simulation R)
include hR

/-! ### Accesses -/

theorem Alike.load (h : Alike R w v) (a : UInt16) : SameAnswer R (w.load a) (v.load a) := by
  obtain ⟨cpu, h⟩ := h
  obtain ⟨answer, h⟩ := hR.read a h
  unfold Circuit.load
  simp only [answer]
  exact ⟨_, cpu, h⟩

theorem Alike.store (h : Alike R w v) (a : UInt16) (x : UInt8) :
    Alike R (w.store a x) (v.store a x) := by
  obtain ⟨cpu, h⟩ := h
  exact ⟨cpu, hR.write a x h⟩

theorem Alike.fetch (h : Alike R w v) : SameAnswer R w.fetch v.fetch := by
  obtain ⟨cpu, h⟩ := h
  obtain ⟨x, h⟩ := hR.read cpu.pc h
  simp only [Circuit.fetch, Circuit.load, x]
  exact ⟨_, _, h⟩

theorem Alike.fetchOperand (h : Alike R w v) (n : Nat) :
    SameAnswer R (w.fetchOperand n) (v.fetchOperand n) := by
  obtain ⟨lo, cpu, s, t, hst, hs, ht⟩ := (h.fetch hR).exists_eq
  obtain ⟨hi, cpu', s', t', hst', hs', ht'⟩ := (Alike.fetch hR ⟨cpu, hst⟩).exists_eq
  match n with
  | 0 => exact ⟨0, h⟩
  | 1 =>
    simp only [Circuit.fetchOperand, hs, ht]
    exact ⟨_, cpu, hst⟩
  | _ + 2 =>
    simp only [Circuit.fetchOperand, hs, ht, hs', ht']
    exact ⟨_, cpu', hst'⟩

theorem Alike.operand (h : Alike R w v) (o : Operand) : SameAnswer R (w.operand o) (v.operand o) := by
  obtain ⟨cpu, h⟩ := h
  cases o with
  | reg r => exact ⟨cpu.reg r, cpu, h⟩
  | mem => exact Alike.load hR ⟨cpu, h⟩ cpu.hl

theorem Alike.setOperand (h : Alike R w v) (o : Operand) (x : UInt8) :
    Alike R (w.setOperand o x) (v.setOperand o x) := by
  obtain ⟨cpu, h⟩ := h
  cases o with
  | reg r => exact ⟨cpu.setReg r x, h⟩
  | mem => exact Alike.store hR ⟨cpu, h⟩ cpu.hl x

theorem Alike.push (h : Alike R w v) (x : UInt16) : Alike R (w.push x) (v.push x) := by
  obtain ⟨cpu, h⟩ := h
  exact ⟨_, hR.write _ _ (hR.write _ _ h)⟩

theorem Alike.pop (h : Alike R w v) : SameAnswer R w.pop v.pop := by
  obtain ⟨cpu, h⟩ := h
  obtain ⟨lo, h⟩ := hR.read cpu.sp h
  obtain ⟨hi, h⟩ := hR.read (cpu.sp + 1) h
  simp only [Circuit.pop, Circuit.load, lo, hi]
  exact ⟨_, _, h⟩

theorem Alike.call (h : Alike R w v) (target : UInt16) : Alike R (w.call target) (v.call target) := by
  obtain ⟨cpu, h⟩ := h
  exact (Alike.push hR ⟨cpu, h⟩ cpu.pc).jump target

theorem Alike.ret (h : Alike R w v) : Alike R w.ret v.ret := by
  obtain ⟨target, cpu, s, t, hst, hs, ht⟩ := (h.pop hR).exists_eq
  simp only [Circuit.ret, hs, ht]
  exact ⟨_, hst⟩

/-! ### Instructions -/

/-- **An instruction works alike**: one case for each instruction. -/
theorem Alike.exec (h : Alike R w v) (i : Instruction) (arg : UInt16) :
    Alike R (exec i arg w) (exec i arg v) := by
  obtain ⟨cpu, hst⟩ := h
  have h := Alike.mk cpu hst
  cases i with
  | nop => exact h
  | hlt | lxi | xchg | inx | dcx | dad | rlc | rrc | ral | rar | daa | cma | stc | cmc | sphl | di | ei
  | aluImmediate | jmp | pchl => exact ⟨_, hst⟩
  | mov dst src =>
    obtain ⟨x, cpu', s', t', hst, hs, ht⟩ := (h.operand hR src).exists_eq
    simp only [Circuit.exec, hs, ht]
    exact Alike.setOperand hR ⟨_, hst⟩ dst x
  | mvi dst => exact h.setOperand hR dst _
  | stax p => cases p <;> exact h.store hR _ _
  | ldax p =>
    cases p with
    | bc =>
      obtain ⟨x, hst⟩ := hR.read cpu.bc hst
      simp only [Circuit.exec, Circuit.load, x]
      exact ⟨_, hst⟩
    | de =>
      obtain ⟨x, hst⟩ := hR.read cpu.de hst
      simp only [Circuit.exec, Circuit.load, x]
      exact ⟨_, hst⟩
  | shld => exact (h.store hR _ _).store hR _ _
  | lhld =>
    obtain ⟨lo, hst⟩ := hR.read arg hst
    obtain ⟨hi, hst⟩ := hR.read (arg + 1) hst
    simp only [Circuit.exec, Circuit.load, lo, hi]
    exact ⟨_, hst⟩
  | sta => exact h.store hR _ _
  | lda =>
    obtain ⟨x, hst⟩ := hR.read arg hst
    simp only [Circuit.exec, Circuit.load, x]
    exact ⟨_, hst⟩
  | input =>
    obtain ⟨x, hst⟩ := hR.input (portAddress (loByte arg)) hst
    simp only [Circuit.exec, x]
    exact ⟨_, hst⟩
  | output => exact ⟨cpu, hR.output _ _ hst⟩
  | alu op src =>
    obtain ⟨x, cpu', s', t', hst, hs, ht⟩ := (h.operand hR src).exists_eq
    simp only [Circuit.exec, hs, ht]
    exact ⟨_, hst⟩
  | inr dst =>
    obtain ⟨x, cpu', s', t', hst, hs, ht⟩ := (h.operand hR dst).exists_eq
    simp only [Circuit.exec, hs, ht]
    exact Alike.setOperand hR ⟨_, hst⟩ dst _
  | dcr dst =>
    obtain ⟨x, cpu', s', t', hst, hs, ht⟩ := (h.operand hR dst).exists_eq
    simp only [Circuit.exec, hs, ht]
    exact Alike.setOperand hR ⟨_, hst⟩ dst _
  | jcc cond =>
    simp only [Circuit.exec]
    split
    · exact h.jump arg
    · exact h
  | call => exact h.call hR arg
  | ccc cond =>
    simp only [Circuit.exec]
    split
    · exact h.call hR arg
    · exact h
  | ret => exact h.ret hR
  | rcc cond =>
    simp only [Circuit.exec]
    split
    · exact h.ret hR
    · exact h
  | rst n => exact h.call hR _
  | push src => exact h.push hR _
  | pop dst =>
    obtain ⟨x, cpu', s', t', hst, hs, ht⟩ := (h.pop hR).exists_eq
    simp only [Circuit.exec, hs, ht]
    exact ⟨_, hst⟩
  | xthl =>
    obtain ⟨lo, hst⟩ := hR.read cpu.sp hst
    obtain ⟨hi, hst⟩ := hR.read (cpu.sp + 1) hst
    simp only [Circuit.exec, Circuit.load, lo, hi]
    exact ⟨_, hR.write _ _ (hR.write _ _ hst)⟩

theorem Alike.stepRunning (h : Alike R w v) : SameAnswer R w.stepRunning v.stepRunning := by
  obtain ⟨first, cpu, s, t, hst, hs, ht⟩ := (h.fetch hR).exists_eq
  obtain ⟨arg, cpu', s', t', hst, hs', ht'⟩ :=
    (Alike.fetchOperand hR ⟨cpu, hst⟩ (Instruction.ofByte first).operandBytes).exists_eq
  simp only [Circuit.stepRunning, hs, ht, hs', ht']
  exact ⟨_, Alike.exec hR ⟨cpu', hst⟩ _ arg⟩

theorem Alike.step (h : Alike R w v) : SameAnswer R w.step v.step := by
  cases halted : w.cpu.halted with
  | true =>
    rw [Circuit.step, if_pos halted, Circuit.step, if_pos (h.cpu_eq ▸ halted)]
    exact ⟨0, h⟩
  | false =>
    have running : ¬ w.cpu.halted := by rw [halted]; exact Bool.false_ne_true
    rw [Circuit.step, if_neg running, Circuit.step, if_neg (h.cpu_eq ▸ running)]
    exact h.stepRunning hR

/-! ### Bursts and interrupts -/

theorem Alike.run (h : Alike R w v) (budget used : UInt32) :
    SameAnswer R (w.run budget used) (v.run budget used) := by
  induction used, w using Circuit.run.induct (σ := σ) budget generalizing v
  case case1 used w hw r ih =>
    obtain ⟨cost, cpu, s, t, hst, hs, ht⟩ := (h.stepRunning hR).exists_eq
    rw [run_of_lt hw.1 hw.2, run_of_lt hw.1 (h.cpu_eq ▸ hw.2), hs, ht]
    rw [show r = (cost, ⟨cpu, s⟩) from hs] at ih
    exact ih ⟨cpu, hst⟩
  case case2 used w hw =>
    rw [run_of_not hw, run_of_not (h.cpu_eq ▸ hw)]
    exact ⟨used, h⟩

/-- **A burst goes alike** on buses that answer alike. -/
theorem Alike.execute (h : Alike R w v) (budget : UInt32) :
    SameAnswer R (w.execute budget) (v.execute budget) := by
  have idle := h.mapCpu ({ · with pending := 0 })
  cases hh : w.cpu.halted with
  | true =>
    rw [execute_of_halted hh, execute_of_halted (h.cpu_eq ▸ hh)]
    exact ⟨budget, idle⟩
  | false =>
    rw [execute_of_running hh, execute_of_running (h.cpu_eq ▸ hh), h.cpu_eq]
    exact idle.run hR budget v.cpu.pending

/-- An interrupt goes alike on buses that answer alike. -/
theorem Alike.interrupt (h : Alike R w v) (vector : UInt16) :
    SameAnswer R (w.interrupt vector) (v.interrupt vector) := by
  cases hi : w.cpu.inte with
  | true =>
    rw [interrupt_of_enabled hi, interrupt_of_enabled (h.cpu_eq ▸ hi)]
    exact ⟨true, (h.call hR vector).mapCpu _⟩
  | false =>
    rw [interrupt_of_disabled hi, interrupt_of_disabled (h.cpu_eq ▸ hi)]
    exact ⟨false, h⟩

end Circuit

/-! ### What every access keeps -/

/-- `P` is kept by every access. -/
structure Bus.Keeps {σ : Type} [Bus σ] (P : σ → Prop) : Prop where
  read : ∀ (a : UInt16) {s : σ}, P s → P (Bus.read a s).2
  write : ∀ (a : UInt16) (x : UInt8) {s : σ}, P s → P (Bus.write a x s)
  input : ∀ (a : UInt16) {s : σ}, P s → P (Bus.input a s).2
  output : ∀ (a : UInt16) (x : UInt8) {s : σ}, P s → P (Bus.output a x s)

variable {σ : Type} [Bus σ] {P : σ → Prop}

/-- A bus on which `P` holds answers as itself. -/
theorem Bus.Keeps.simulation (h : Bus.Keeps P) : Bus.Simulation fun s t : σ => s = t ∧ P s where
  read a := by
    rintro s _ ⟨rfl, hs⟩
    exact ⟨rfl, rfl, h.read a hs⟩
  write a x := by
    rintro s _ ⟨rfl, hs⟩
    exact ⟨rfl, h.write a x hs⟩
  input a := by
    rintro s _ ⟨rfl, hs⟩
    exact ⟨rfl, rfl, h.input a hs⟩
  output a x := by
    rintro s _ ⟨rfl, hs⟩
    exact ⟨rfl, h.output a x hs⟩

namespace Circuit

/-- **What every access keeps, a burst keeps.** -/
theorem execute_keeps (h : Bus.Keeps P) {w : Circuit σ} (hw : P w.bus) (budget : UInt32) :
    P (w.execute budget).2.bus :=
  (Alike.execute h.simulation ⟨w.cpu, rfl, hw⟩ budget).alike.bus.2

end Circuit

end Cabinet
