import Cabinet.Proofs.Board.Cells
import Cabinet.Proofs.Cpu.Trace
/-!
# The stack

Words are pushed onto the stack and popped from it. Where every pop takes back the word of one push
(`Bracketed`), the words come back in the opposite order, as long as the stack has room: it grows
downwards and around the end of memory, so up to 32768 words, which fill all of memory, stand at
addresses of their own.

The argument is by induction on the brackets (`Circuit.restores_moves`). A push writes its word below the
stack pointer (`Circuit.push_writes`). What happens until the word is popped only touches bytes below that
word, so the word is still there, and popping it brings the stack pointer back (`Circuit.push_restores`).
All of it together is `Circuit.stack_last_in_first_out`.
-/

namespace Cabinet

/-- What is done to the stack. -/
inductive StackMove where
  /-- A word is pushed. -/
  | push (v : UInt16)
  /-- A word is popped. -/
  | pop
deriving DecidableEq, Inhabited

/-- The moves are well bracketed: every pop belongs to a push before it, and of two such pairs one lies
between the other or behind it. Given are also the words that the pops take back, those of their
pushes, and how many words are on the stack at most. -/
inductive Bracketed : List StackMove → List UInt16 → Nat → Prop where
  /-- Nothing is done. -/
  | nil : Bracketed [] [] 0
  /-- A word is pushed, and popped after the moves inside; other moves come behind. -/
  | bracket {inside behind : List StackMove} {popped later : List UInt16} {deep high : Nat}
      (v : UInt16) (hi : Bracketed inside popped deep) (hb : Bracketed behind later high) :
      Bracketed (.push v :: inside ++ .pop :: behind) (popped ++ v :: later) (max (deep + 1) high)

/-! ### The bytes below the stack pointer -/

/-- The address is that of one of the bytes of the `n` words below a stack pointer. -/
def Below (sp : UInt16) (n : Nat) (a : UInt16) : Prop := ∃ k < 2 * n, a = sp - 1 - UInt16.ofNat k

section Below

variable {sp a : UInt16} {m n : Nat}

theorem below_iff : Below sp n a ↔ (sp - 1 - a).toNat < 2 * n := by
  constructor
  · rintro ⟨k, hk, rfl⟩
    have distance : sp - 1 - (sp - 1 - UInt16.ofNat k) = UInt16.ofNat k := by grind
    rw [distance, UInt16.toNat_ofNat']
    exact Nat.lt_of_le_of_lt (Nat.mod_le _ _) hk
  · intro h
    refine ⟨_, h, ?_⟩
    rw [UInt16.ofNat_toNat]
    grind

theorem Below.mono (h : Below sp m a) (le : m ≤ n) : Below sp n a := by
  obtain ⟨k, hk, eq⟩ := h
  exact ⟨k, by omega, eq⟩

theorem below_high (h : 0 < n) : Below sp n (sp - 1) := ⟨0, by omega, (UInt16.sub_zero _).symm⟩

theorem below_low (h : 0 < n) : Below sp n (sp - 2) := ⟨1, by omega, by grind⟩

/-- How far an address lies below the last word, if it does. -/
theorem toNat_below_pushed (sp a : UInt16) :
    (sp - 2 - 1 - a).toNat = ((sp - 1 - a).toNat + 65534) % 65536 := by
  have same : sp - 2 - 1 - a = sp - 1 - a - 2 := by grind
  rw [same, UInt16.toNat_sub]
  show (2 ^ 16 - 2 + _) % 2 ^ 16 = _
  omega

/-- What lies below the word pushed last lies below the stack pointer before. -/
theorem Below.of_pushed (h : Below (sp - 2) n a) : Below sp (n + 1) a := by
  have bound := (sp - 1 - a).toNat_lt
  rw [below_iff, toNat_below_pushed] at h
  rw [below_iff]
  omega

/-- **While there is room**, the two bytes of a word do not lie below it. -/
theorem not_below_pushed (room : n < 0x8000) :
    ¬Below (sp - 2) n (sp - 1) ∧ ¬Below (sp - 2) n (sp - 2) := by
  have high : (sp - 1 - (sp - 1)).toNat = 0 := by rw [UInt16.sub_self]; rfl
  have low : (sp - 1 - (sp - 2)).toNat = 1 := by
    have one : sp - 1 - (sp - 2) = 1 := by grind
    rw [one]
    rfl
  rw [below_iff, below_iff, toNat_below_pushed, toNat_below_pushed, high, low]
  omega

end Below

/-! ### Plain storage -/

section Storage

variable {σ : Type} [Bus σ]

/-- On a bus with `P`, the addresses in `U` are plain storage: reading one of them changes none, and
writing a byte to one changes that one only. Either leaves a bus with `P`. -/
structure Bus.Storage (P : σ → Prop) (U : UInt16 → Prop) : Prop where
  /-- Reading. -/
  read : ∀ {a : UInt16} {s : σ}, U a → P s →
    P (Bus.read a s).2 ∧ ∀ b, U b → Bus.peek b (Bus.read a s).2 = Bus.peek b s
  /-- Writing. -/
  write : ∀ {a : UInt16} (x : UInt8) {s : σ}, U a → P s →
    P (Bus.write a x s) ∧ ∀ b, U b → Bus.peek b (Bus.write a x s) = if b = a then x else Bus.peek b s

theorem Bus.Storage.mono {P : σ → Prop} {U V : UInt16 → Prop} (storage : Bus.Storage P U)
    (le : ∀ a, V a → U a) : Bus.Storage P V where
  read hV hP := ⟨(storage.read (le _ hV) hP).1, fun b hb => (storage.read (le _ hV) hP).2 b (le b hb)⟩
  write x _ hV hP :=
    ⟨(storage.write x (le _ hV) hP).1, fun b hb => (storage.write x (le _ hV) hP).2 b (le b hb)⟩

/-- A bus that records is storage where the bus that it observes is, and records reads and writes. -/
theorem Bus.Storage.traced {P : σ → Prop} {U : UInt16 → Prop} (storage : Bus.Storage P U) :
    Bus.Storage (Traced.Granted P fun x => (x.kind = .read ∨ x.kind = .write) ∧ U x.address) U where
  read hU ht := ⟨ht.record ⟨.inl rfl, hU⟩ (storage.read hU ht.1).1, (storage.read hU ht.1).2⟩
  write x _ hU ht := ⟨ht.record ⟨.inr rfl, hU⟩ (storage.write x hU ht.1).1, (storage.write x hU ht.1).2⟩

/-- On a board, addresses that belong to banks that take writes are plain storage. -/
theorem Board.storage (U : UInt16 → Prop) :
    Bus.Storage (fun board : Board => ∀ a, U a → Board.Writable a board) U where
  read _ h := ⟨h, fun _ _ => rfl⟩
  write {a} x {board} ha h := by
    refine ⟨fun b hb => (keeps_writable b).write a x (h b hb), ?_⟩
    intro b _
    by_cases same : b = a
    · subst same
      rw [if_pos rfl]
      exact (stores b).stored x (h b ha)
    · rw [if_neg same]
      exact apart (fun _ => True) same x trivial

namespace Circuit

/-- Makes the moves. Gives the words that are popped. -/
def moves : List StackMove → Circuit σ → List UInt16 × Circuit σ
  | [], w => ([], w)
  | .push v :: ms, w => moves ms (w.push v)
  | .pop :: ms, w =>
    let (v, w) := w.pop
    let (vs, w) := moves ms w
    (v :: vs, w)

theorem moves_push (v : UInt16) (ms : List StackMove) (w : Circuit σ) :
    w.moves (.push v :: ms) = (w.push v).moves ms := rfl

theorem moves_pop (ms : List StackMove) (w : Circuit σ) :
    w.moves (.pop :: ms) = (w.pop.1 :: (w.pop.2.moves ms).1, (w.pop.2.moves ms).2) := rfl

theorem moves_append (ms ns : List StackMove) (w : Circuit σ) :
    w.moves (ms ++ ns) =
      ((w.moves ms).1 ++ ((w.moves ms).2.moves ns).1, ((w.moves ms).2.moves ns).2) := by
  induction ms generalizing w with
  | nil => rfl
  | cons m ms ih =>
    cases m with
    | push v => exact ih (w.push v)
    | pop => rw [List.cons_append, moves_pop, moves_pop, ih, List.cons_append]

/-- Whatever is done to the stack, of the processor only the stack pointer is set. -/
theorem cpu_moves (ms : List StackMove) (w : Circuit σ) :
    (w.moves ms).2.cpu = { w.cpu with sp := (w.moves ms).2.cpu.sp } := by
  induction ms generalizing w with
  | nil => rfl
  | cons m ms ih =>
    cases m with
    | push v => exact ih (w.push v)
    | pop => exact ih w.pop.2

/-! ### Last in, first out -/

section Storage

variable {P : σ → Prop} {U : UInt16 → Prop} {w v u : Circuit σ} {n : Nat}

/-- The circuit `v` has the processor of `w`, and in `U` the same memory but for the `n` words below the
stack pointer. -/
structure Restores (P : σ → Prop) (U : UInt16 → Prop) (n : Nat) (w v : Circuit σ) : Prop where
  /-- The processor is as it was. -/
  cpu : v.cpu = w.cpu
  /-- The bus still has `P`. -/
  kept : P v.bus
  /-- Nothing but the words below the stack pointer has changed. -/
  memory : ∀ a, U a → ¬Below w.cpu.sp n a → Bus.peek a v.bus = Bus.peek a w.bus

theorem Restores.refl (hP : P w.bus) : Restores P U 0 w w := ⟨rfl, hP, fun _ _ _ => rfl⟩

theorem Restores.mono {m : Nat} (h : Restores P U m w v) (le : m ≤ n) : Restores P U n w v :=
  ⟨h.cpu, h.kept, fun a ha outside => h.memory a ha fun inside => outside (inside.mono le)⟩

theorem Restores.trans (first : Restores P U n w v) (second : Restores P U n v u) :
    Restores P U n w u where
  cpu := second.cpu.trans first.cpu
  kept := second.kept
  memory a ha outside :=
    (second.memory a ha (first.cpu ▸ outside)).trans (first.memory a ha outside)

variable (storage : Bus.Storage P U) (hP : P w.bus)
include storage hP

/-- **A push** writes its word below the stack pointer and changes nothing else. -/
theorem push_writes (high : U (w.cpu.sp - 1)) (low : U (w.cpu.sp - 2)) (x : UInt16) :
    P (w.push x).bus ∧ ∀ a, U a → Bus.peek a (w.push x).bus =
      if a = w.cpu.sp - 2 then loByte x else if a = w.cpu.sp - 1 then hiByte x else
        Bus.peek a w.bus := by
  obtain ⟨hP', highByte⟩ := storage.write (hiByte x) high hP
  obtain ⟨hP'', lowByte⟩ := storage.write (loByte x) low hP'
  refine ⟨hP'', ?_⟩
  intro a ha
  rw [← highByte a ha]
  exact lowByte a ha

/-- **A pop** reads the word at the stack pointer and changes nothing in memory. -/
theorem pop_reads (low : U w.cpu.sp) (high : U (w.cpu.sp + 1)) :
    w.pop.1 = word (Bus.peek (w.cpu.sp + 1) w.bus) (Bus.peek w.cpu.sp w.bus) ∧
      P w.pop.2.bus ∧ ∀ a, U a → Bus.peek a w.pop.2.bus = Bus.peek a w.bus := by
  obtain ⟨hP', lowRead⟩ := storage.read low hP
  obtain ⟨hP'', highRead⟩ := storage.read high hP'
  refine ⟨?_, hP'', ?_⟩
  · rw [← lowRead _ high]
    rfl
  · intro a ha
    rw [← lowRead a ha]
    exact highRead a ha

/-- **A word comes back** if what happens between its push and its pop is restored. -/
theorem push_restores (room : n < 0x8000) (region : ∀ a, Below w.cpu.sp (n + 1) a → U a) (x : UInt16)
    (inside : Restores P U n (w.push x) v) : v.pop.1 = x ∧ Restores P U (n + 1) w v.pop.2 := by
  have high : U (w.cpu.sp - 1) := region _ (below_high (by omega))
  have low : U (w.cpu.sp - 2) := region _ (below_low (by omega))
  obtain ⟨-, pushed⟩ := push_writes storage hP high low x
  obtain ⟨keepsHigh, keepsLow⟩ : ¬Below (w.cpu.sp - 2) n (w.cpu.sp - 1) ∧
      ¬Below (w.cpu.sp - 2) n (w.cpu.sp - 2) := not_below_pushed room
  have sp : v.cpu.sp = w.cpu.sp - 2 := congrArg Cpu.sp inside.cpu
  have above : v.cpu.sp + 1 = w.cpu.sp - 1 := by
    rw [sp]
    grind
  have back : v.cpu.sp + 2 = w.cpu.sp := by
    rw [sp]
    exact UInt16.sub_add_cancel _ _
  have differ : w.cpu.sp - 1 ≠ w.cpu.sp - 2 := by grind
  have highByte : Bus.peek (w.cpu.sp - 1) v.bus = hiByte x := by
    rw [inside.memory _ high keepsHigh, pushed _ high, if_neg differ, if_pos rfl]
  have lowByte : Bus.peek (w.cpu.sp - 2) v.bus = loByte x := by
    rw [inside.memory _ low keepsLow, pushed _ low, if_pos rfl]
  obtain ⟨value, kept, memory⟩ := pop_reads storage inside.kept (sp ▸ low) (above ▸ high)
  refine ⟨?_, ?_, kept, ?_⟩
  · rw [value, above, sp, highByte, lowByte, word_hiByte_loByte]
  · show { v.cpu with sp := v.cpu.sp + 2 } = w.cpu
    rw [back, inside.cpu]
    rfl
  · intro a ha outside
    rw [memory a ha, inside.memory a ha fun below => outside below.of_pushed, pushed a ha,
      if_neg, if_neg]
    · rintro rfl
      exact outside (below_high (by omega))
    · rintro rfl
      exact outside (below_low (by omega))

/-- **Brackets give their words back**, and restore the processor and all of memory but the words that
they had on the stack. -/
theorem restores_moves {ms : List StackMove} {ws : List UInt16} (bracketed : Bracketed ms ws n)
    (room : n ≤ 0x8000) (region : ∀ a, Below w.cpu.sp n a → U a) :
    (w.moves ms).1 = ws ∧ Restores P U n w (w.moves ms).2 := by
  induction bracketed generalizing w with
  | nil => exact ⟨rfl, .refl hP⟩
  | @bracket inside behind popped later deep high x _ _ inner outer =>
    have fewer : deep + 1 ≤ max (deep + 1) high := Nat.le_max_left ..
    have fewerBehind : high ≤ max (deep + 1) high := Nat.le_max_right ..
    have here : ∀ a, Below w.cpu.sp (deep + 1) a → U a := fun a ha => region a (ha.mono fewer)
    have pushed : P (w.push x).bus :=
      (push_writes storage hP (here _ (below_high (by omega))) (here _ (below_low (by omega))) x).1
    obtain ⟨words, between⟩ := inner (w := w.push x) pushed (by omega) fun a ha => here a ha.of_pushed
    obtain ⟨word, popped⟩ := push_restores storage hP (by omega) here x between
    obtain ⟨rest, after⟩ := outer (w := ((w.push x).moves inside).2.pop.2) popped.kept (by omega) (by
      intro a ha
      rw [popped.cpu] at ha
      exact region a (ha.mono fewerBehind))
    rw [List.cons_append, moves_push, moves_append, moves_pop, words, word, rest]
    exact ⟨rfl, (popped.mono fewer).trans (after.mono fewerBehind)⟩

end Storage

/-- **The stack gives back last what was put on it first**, up to the size of memory. Let pushes and
pops be well bracketed, with at most 32768 words on the stack at a time, and let the bytes of so many
words below the stack pointer be plain storage, wherever the stack pointer is. Then

* each pop gives the word of its push;
* afterwards the processor is as it was, and no moves set more of it than its stack pointer;
* of whatever else is storage, nothing but those bytes has changed;
* the only accesses are reads and writes of those bytes. -/
theorem stack_last_in_first_out {P : σ → Prop} {U : UInt16 → Prop} {ms : List StackMove}
    {ws : List UInt16} {n : Nat} (bracketed : Bracketed ms ws n) (room : n ≤ 32768)
    (storage : Bus.Storage P U) (w : Circuit σ) (hP : P w.bus)
    (region : ∀ a, Below w.cpu.sp n a → U a) :
    (w.moves ms).1 = ws ∧
    (w.moves ms).2.cpu = w.cpu ∧
    (∀ others, ∃ sp, (w.moves others).2.cpu = { w.cpu with sp }) ∧
    P (w.moves ms).2.bus ∧
    (∀ a, U a → ¬Below w.cpu.sp n a → Bus.peek a (w.moves ms).2.bus = Bus.peek a w.bus) ∧
    ∀ x ∈ (w.traced.moves ms).2.bus.trace,
      (x.kind = .read ∨ x.kind = .write) ∧ Below w.cpu.sp n x.address := by
  obtain ⟨words, restores⟩ := restores_moves storage hP bracketed room region
  refine ⟨words, restores.cpu, ?_, restores.kept, restores.memory, ?_⟩
  · intro others
    exact ⟨_, cpu_moves others w⟩
  · -- On a bus that records, only the bytes of the words are taken for storage.
    have recorded := restores_moves (storage.mono region).traced (granted_traced hP) bracketed room
      fun a ha => ha
    exact recorded.2.kept.2

/-- `n` words pushed one after the other, and popped again. -/
def tower : Nat → List StackMove
  | 0 => []
  | n + 1 => .push (UInt16.ofNat n) :: tower n ++ [.pop]

theorem bracketed_tower (n : Nat) : Bracketed (tower n) ((List.range n).map UInt16.ofNat) n := by
  induction n with
  | zero => exact .nil
  | succ n ih =>
    have higher := Bracketed.bracket (UInt16.ofNat n) ih .nil
    rw [Nat.max_eq_left (Nat.zero_le _)] at higher
    rw [List.range_succ, List.map_append]
    exact higher

/-- A processor with all of memory for its stack. -/
def roomy : Circuit Board where
  cpu := { sp := 0x0003, a := 0x12 }
  bus := .flat []

/-- A stack that fills memory. -/
theorem roomy_last_in_first_out :
    Bracketed (tower 32768) ((List.range 32768).map UInt16.ofNat) 32768 ∧
      (roomy.moves (tower 32768)).1 = (List.range 32768).map UInt16.ofNat ∧
      (roomy.moves (tower 32768)).2.cpu = roomy.cpu := by
  have bracketed := bracketed_tower 32768
  obtain ⟨words, cpu, -⟩ := stack_last_in_first_out bracketed (Nat.le_refl _)
    (Board.storage fun _ => True) roomy (fun a _ => Board.writable_flat [] a) fun _ _ => trivial
  exact ⟨bracketed, words, cpu⟩

end Circuit

end Storage

end Cabinet
