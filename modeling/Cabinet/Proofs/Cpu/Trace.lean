import Cabinet.Proofs.Cpu.Simulation
/-!
# The accesses of a run

A bus that records the accesses goes through the states of the bus that it observes
(`Traced.simulation`), so the accesses of a run are those of the same run with a bus that records.
Those of a burst come behind those made before (`Circuit.trace_execute`). If every access to a bus in a
certain state is of a certain kind, and leaves the bus in such a state, then all accesses of a run are
of that kind: that is one more thing that every access keeps (`Bus.Grants.traced`).
-/

namespace Cabinet

variable {σ : Type} {P : σ → Prop} {Q : Bus.Access → Prop}

/-- The circuit with a bus that records, from now on. -/
def Circuit.traced (w : Circuit σ) : Circuit (Traced σ) := ⟨w.cpu, { bus := w.bus }⟩

theorem Circuit.alike_traced (w : Circuit σ) :
    Circuit.Alike (fun (s : σ) (t : Traced σ) => t.bus = s) w w.traced :=
  ⟨w.cpu, rfl⟩

/-- The bus has `P`, and all accesses so far have `Q`. -/
def Traced.Granted (P : σ → Prop) (Q : Bus.Access → Prop) (t : Traced σ) : Prop :=
  P t.bus ∧ ∀ x ∈ t.trace, Q x

theorem Circuit.granted_traced {w : Circuit σ} (hw : P w.bus) : w.traced.bus.Granted P Q :=
  ⟨hw, fun _ hx => absurd hx (Array.not_mem_empty _)⟩

theorem Traced.Granted.record {t : Traced σ} (h : t.Granted P Q) {kind : Bus.Kind} {a : UInt16}
    {v : UInt8} (hq : Q ⟨kind, a, v⟩) {bus : σ} (hp : P bus) :
    (t.record kind a v bus).Granted P Q := by
  refine ⟨hp, fun x hx => ?_⟩
  obtain old | rfl := Array.mem_push.1 hx
  · exact h.2 x old
  · exact hq

variable [Bus σ]

/-- The bus that is observed does not notice. -/
theorem Traced.simulation : Bus.Simulation fun (s : σ) (t : Traced σ) => t.bus = s where
  read a := by
    rintro s t rfl
    exact ⟨rfl, rfl⟩
  write a x := by
    rintro s t rfl
    rfl
  input a := by
    rintro s t rfl
    exact ⟨rfl, rfl⟩
  output a x := by
    rintro s t rfl
    rfl

/-- A bus that has recorded `before` already goes on as one that begins to record. -/
theorem Traced.simulation_append (before : Array Bus.Access) :
    Bus.Simulation fun s t : Traced σ => s.bus = t.bus ∧ s.trace = before ++ t.trace where
  read a := by
    rintro ⟨_, _⟩ t ⟨rfl, rfl⟩
    exact ⟨rfl, rfl, Array.push_append⟩
  write a x := by
    rintro ⟨_, _⟩ t ⟨rfl, rfl⟩
    exact ⟨rfl, Array.push_append⟩
  input a := by
    rintro ⟨_, _⟩ t ⟨rfl, rfl⟩
    exact ⟨rfl, rfl, Array.push_append⟩
  output a x := by
    rintro ⟨_, _⟩ t ⟨rfl, rfl⟩
    exact ⟨rfl, Array.push_append⟩

/-- **The accesses of a burst come behind those made before**, and do not depend on them. -/
theorem Circuit.trace_execute (v : Circuit (Traced σ)) (budget : UInt32) :
    (v.execute budget).2.bus.trace =
      v.bus.trace ++ ((Circuit.mk v.cpu v.bus.bus).traced.execute budget).2.bus.trace := by
  have start : Circuit.Alike (fun s t : Traced σ => s.bus = t.bus ∧ s.trace = v.bus.trace ++ t.trace)
      v (Circuit.mk v.cpu v.bus.bus).traced :=
    ⟨v.cpu, rfl, Array.append_empty.symm⟩
  exact (start.execute (Traced.simulation_append v.bus.trace) budget).alike.bus.2

/-- Every access to a bus with `P` is one with `Q`, and leaves a bus with `P`. -/
structure Bus.Grants (P : σ → Prop) (Q : Bus.Access → Prop) : Prop where
  /-- No access ends `P`. -/
  keeps : Bus.Keeps P
  read : ∀ (a : UInt16) {s : σ}, P s → Q ⟨.read, a, (Bus.read a s).1⟩
  write : ∀ (a : UInt16) (x : UInt8) {s : σ}, P s → Q ⟨.write, a, x⟩
  input : ∀ (a : UInt16) {s : σ}, P s → Q ⟨.input, a, (Bus.input a s).1⟩
  output : ∀ (a : UInt16) (x : UInt8) {s : σ}, P s → Q ⟨.output, a, x⟩

/-- **One more access keeps the accesses granted.** -/
theorem Bus.Grants.traced (h : Bus.Grants P Q) : Bus.Keeps (Traced.Granted P Q) where
  read a _ ht := ht.record (h.read a ht.1) (h.keeps.read a ht.1)
  write a x _ ht := ht.record (h.write a x ht.1) (h.keeps.write a x ht.1)
  input a _ ht := ht.record (h.input a ht.1) (h.keeps.input a ht.1)
  output a x _ ht := ht.record (h.output a x ht.1) (h.keeps.output a x ht.1)

end Cabinet
