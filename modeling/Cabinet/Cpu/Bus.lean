/-!
# Buses

A bus is what the processor reads and writes: memory at sixteen-bit addresses and, apart from it,
ports. It is described by a state and by what each access does to that state, so every access, a read
included, may have an effect. Recording the accesses turns a bus into another one (`Traced`).
-/

namespace Cabinet

/-- The accesses that a processor makes to a bus with state `σ`. A board without ports of its own
finds its ports in memory. -/
class Bus (σ : Type) where
  /-- Reads memory. -/
  read : UInt16 → σ → UInt8 × σ
  /-- Writes memory. -/
  write : UInt16 → UInt8 → σ → σ
  /-- Reads a port. -/
  input : UInt16 → σ → UInt8 × σ := read
  /-- Writes a port. -/
  output : UInt16 → UInt8 → σ → σ := write

namespace Bus

/-- The four kinds of access. -/
inductive Kind where
  | read | write | input | output
deriving DecidableEq, Inhabited

/-- One access: its kind, the address on the bus and the byte transferred. -/
structure Access where
  /-- What is done. -/
  kind : Kind
  /-- Where it is done. -/
  address : UInt16
  /-- The byte read or written. -/
  value : UInt8
deriving DecidableEq, Inhabited

end Bus

/-- A bus together with the accesses made to it so far. -/
structure Traced (σ : Type) where
  /-- The bus that is observed. -/
  bus : σ
  /-- The accesses, oldest first. -/
  trace : Array Bus.Access := #[]

namespace Traced

variable {σ : Type}

/-- Adds one access to the trace. -/
@[inline] def record (t : Traced σ) (kind : Bus.Kind) (address : UInt16) (value : UInt8) (bus : σ) :
    Traced σ :=
  { bus, trace := t.trace.push { kind, address, value } }

/-- Each access is passed on to the bus that is observed, and recorded. -/
instance [Bus σ] : Bus (Traced σ) where
  read a t := let (v, bus) := Bus.read a t.bus; (v, t.record .read a v bus)
  write a v t := t.record .write a v (Bus.write a v t.bus)
  input a t := let (v, bus) := Bus.input a t.bus; (v, t.record .input a v bus)
  output a v t := t.record .output a v (Bus.output a v t.bus)

end Traced

end Cabinet
