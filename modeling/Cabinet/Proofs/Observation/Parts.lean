import Cabinet.Proofs.Machine.Construction
/-!
# The parts of an observation

An observation is taken apart into its parts (`Observation.Part`). Each part is told by a few bytes of
memory, those at its own places (`Observation.Part.places`): if they are the same in two memories, the
part is the same, whatever else is in them (`Observation.Part.same_take`). So machines of any programs
and any pasts are observed alike if they hold the same bytes at the places that their map names
(`Machine.observes_named_bytes`).
-/

namespace Cabinet

namespace AddressMap

/-- The places that a map names, but for the flags of the aliens and the position of the saucer. -/
def places (map : AddressMap) : List UInt16 :=
  [map.scoreLow, map.scoreHigh, map.reserveShips, map.playerAlive, map.playerX, map.playerY,
    map.alienCount, map.shotStatus, map.playerShot.x, map.playerShot.y, map.rollingShot.x,
    map.rollingShot.y, map.plungerShot.x, map.plungerShot.y, map.squigglyShot.x, map.squigglyShot.y,
    map.ufoActive]

/-- Two memories hold the same bytes where the map names them. The flags of the aliens stand one behind
the other, around the end of memory if need be. Where the saucer is does not count unless it flies. -/
structure Agrees (map : AddressMap) (f g : UInt16 → UInt8) : Prop where
  /-- The single bytes. -/
  single : ∀ a ∈ map.places, f a = g a
  /-- The flags of the aliens. -/
  grid : ∀ i < 55, ∀ a : UInt16, a.toNat = (map.alienGrid.toNat + i) % 65536 → f a = g a
  /-- The position of the saucer. -/
  saucer : f map.ufoActive ≠ 0 → f map.ufoX = g map.ufoX ∧ f map.ufoY = g map.ufoY

end AddressMap

namespace Observation

/-- A part of an observation. -/
inductive Part where
  | score | lives | gameOver | level | playerX | playerY | playerAlive | alienGrid | alienCount
  | shotStatus | playerShot | rollingShot | plungerShot | squigglyShot | ufo
deriving DecidableEq

/-- A part is the same in both observations. -/
def Part.Same (o o' : Observation) : Part → Prop
  | .score => o.score = o'.score
  | .lives => o.lives = o'.lives
  | .gameOver => o.gameOver = o'.gameOver
  | .level => o.level = o'.level
  | .playerX => o.playerX = o'.playerX
  | .playerY => o.playerY = o'.playerY
  | .playerAlive => o.playerAlive = o'.playerAlive
  | .alienGrid => o.alienGrid = o'.alienGrid
  | .alienCount => o.alienCount = o'.alienCount
  | .shotStatus => o.shotStatus = o'.shotStatus
  | .playerShot => o.playerShot = o'.playerShot
  | .rollingShot => o.rollingShot = o'.rollingShot
  | .plungerShot => o.plungerShot = o'.plungerShot
  | .squigglyShot => o.squigglyShot = o'.squigglyShot
  | .ufo => o.ufo = o'.ufo

/-- Where the bytes of a shot stand. -/
def shotPlaces (shot : ShotAddresses) : List UInt16 := [shot.x, shot.y]

/-- Where the bytes of a part stand. -/
def Part.places (map : AddressMap) (byteAt : UInt16 → UInt8) : Part → List UInt16
  | .score => [map.scoreLow, map.scoreHigh]
  | .lives | .gameOver => [map.reserveShips, map.playerAlive]
  | .level => []
  | .playerX => [map.playerX]
  | .playerY => [map.playerY]
  | .playerAlive => [map.playerAlive]
  | .alienGrid => (List.range 55).map fun i => map.alienGrid + UInt16.ofNat i
  | .alienCount => [map.alienCount]
  | .shotStatus => [map.shotStatus]
  | .playerShot => shotPlaces map.playerShot
  | .rollingShot => shotPlaces map.rollingShot
  | .plungerShot => shotPlaces map.plungerShot
  | .squigglyShot => shotPlaces map.squigglyShot
  | .ufo =>
    if byteAt map.ufoActive = 0 then [map.ufoActive] else [map.ufoActive, map.ufoX, map.ufoY]

section Same

variable {map : AddressMap} {f g : UInt16 → UInt8} {o o' : Observation}

/-- The parts are all that there is. -/
theorem eq_of_same (same : ∀ part : Part, part.Same o o') : o = o' := by
  rw [Observation.mk.injEq]
  exact ⟨same .score, same .lives, same .gameOver, same .level, same .playerX, same .playerY,
    same .playerAlive, same .alienGrid, same .alienCount, same .shotStatus, same .playerShot,
    same .rollingShot, same .plungerShot, same .squigglyShot, same .ufo⟩

theorem shot_congr {places : ShotAddresses} (h : ∀ a ∈ shotPlaces places, f a = g a) :
    shot f places = shot g places := by
  rw [shot, shot, h places.x (by simp [shotPlaces]), h places.y (by simp [shotPlaces])]

theorem saucer_congr (h : ∀ a ∈ Part.ufo.places map f, f a = g a) : saucer map f = saucer map g := by
  rw [Part.places] at h
  by_cases still : f map.ufoActive = 0
  · rw [if_pos still] at h
    have active := h _ (List.mem_singleton_self _)
    rw [saucer, saucer, if_pos still, if_pos (active.symm.trans still)]
  · rw [if_neg still] at h
    rw [saucer, saucer, ← h map.ufoActive (by simp), ← h map.ufoX (by simp), ← h map.ufoY (by simp)]

/-- **Each part is told by the bytes at its own places.** -/
theorem Part.same_take (part : Part) (h : ∀ a ∈ part.places map f, f a = g a) (halted : Bool)
    (frames : UInt64) : part.Same (take map f halted frames) (take map g halted frames) := by
  cases part with
  | level => rfl
  | playerX | playerY | alienCount | shotStatus => exact h _ (List.mem_singleton_self _)
  | playerShot | rollingShot | plungerShot | squigglyShot => exact shot_congr h
  | ufo => exact saucer_congr h
  | alienGrid => exact List.map_congr_left fun i hi => h _ (List.mem_map_of_mem hi)
  | playerAlive => simp only [Same, take, h map.playerAlive (by simp [places])]
  | score =>
    simp only [Same, take, h map.scoreLow (by simp [places]), h map.scoreHigh (by simp [places])]
  | lives | gameOver =>
    simp only [Same, take, h map.reserveShips (by simp [places]), h map.playerAlive (by simp [places])]

/-- The map names the places of every part. -/
theorem Part.eq_at_places (agrees : map.Agrees f g) (part : Part) :
    ∀ a ∈ part.places map f, f a = g a := by
  intro a ha
  cases part with
  | alienGrid =>
    obtain ⟨i, hi, rfl⟩ := List.mem_map.1 ha
    have small : i < 55 := List.mem_range.1 hi
    refine agrees.grid i small _ ?_
    rw [UInt16.toNat_add, UInt16.toNat_ofNat', Nat.mod_eq_of_lt (show i < 2 ^ 16 by omega)]
  | ufo =>
    have active : f map.ufoActive = g map.ufoActive := agrees.single _ (by simp [AddressMap.places])
    rw [places] at ha
    by_cases still : f map.ufoActive = 0
    · rw [if_pos still, List.mem_singleton] at ha
      rwa [ha]
    · obtain ⟨column, row⟩ := agrees.saucer still
      rw [if_neg still] at ha
      rcases List.mem_cons.1 ha with rfl | ha
      · exact active
      rcases List.mem_cons.1 ha with rfl | ha
      · exact column
      · rwa [List.mem_singleton.1 ha]
  | level => cases ha
  | playerX | playerY | playerAlive | alienCount | shotStatus =>
    refine agrees.single a ?_
    rw [List.mem_singleton.1 ha]
    simp [AddressMap.places]
  | score | lives | gameOver | playerShot | rollingShot | plungerShot | squigglyShot =>
    refine agrees.single a ?_
    rcases List.mem_cons.1 ha with rfl | ha
    · simp [AddressMap.places]
    · rw [List.mem_singleton.1 ha]
      simp [AddressMap.places]

end Same

/-! ### Lives -/

theorem livesOf_le (reserve : UInt8) (alive : Bool) : livesOf reserve alive ≤ 6 := by
  show (if maxLives < reserve.toUInt32 + (if alive then 1 else 0) then (0 : UInt32) else _) ≤ 6
  by_cases many : maxLives < reserve.toUInt32 + (if alive then 1 else 0)
  · rw [if_pos many]
    decide
  · rw [if_neg many]
    exact UInt32.not_lt.1 many

/-- While the processor runs the game is over only if no ship is left. -/
theorem lives_of_gameOver {map : AddressMap} {byteAt : UInt16 → UInt8} {frames : UInt64}
    (ended : (take map byteAt false frames).gameOver = true) :
    (take map byteAt false frames).playerAlive = false ∧ (take map byteAt false frames).lives = 0 := by
  simp only [take, Bool.false_or, Bool.and_eq_true, Bool.not_eq_true', beq_iff_eq] at ended
  obtain ⟨dead, none⟩ := ended
  simp only [take, dead, none]
  decide

end Observation

/-! ### Machines that are observed -/

namespace Machine

theorem observe_of_map {m : Machine} {map : AddressMap} (known : m.map = some map) :
    m.observe = .ok (.take map m.read m.isHalted m.frames) := by
  rw [observe, known]

/-- **What is observed depends on nothing but the bytes that the map names**, on the number of frames
and on whether the processor is halted. Let two machines have one map, whatever it names and whatever
their programs and their pasts are, and let them have run as many frames and both be halted or not.

* If they hold the same bytes where the map names them, they are observed alike. Where the saucer is
  counts only while it flies.
* Each part by itself is the same if the bytes at its own places are.
* At most six lives are observed, and the game of a processor that runs is over only if no ship is in
  play and no lives are left. -/
theorem observes_named_bytes {map : AddressMap} {m n : Machine} (known : m.map = some map)
    (known' : n.map = some map) (frames : m.frames = n.frames) (halted : m.isHalted = n.isHalted) :
    (map.Agrees m.read n.read → m.observe = n.observe) ∧
    ∃ o o', m.observe = .ok o ∧ n.observe = .ok o' ∧
      (∀ part : Observation.Part, (∀ a ∈ part.places map m.read, m.read a = n.read a) →
        part.Same o o') ∧
      o.lives ≤ 6 ∧
      (o.gameOver = true → m.isHalted = false → o.playerAlive = false ∧ o.lives = 0) := by
  have same (part : Observation.Part) (h : ∀ a ∈ part.places map m.read, m.read a = n.read a) :
      part.Same (.take map m.read m.isHalted m.frames) (.take map n.read n.isHalted n.frames) := by
    rw [← frames, ← halted]
    exact part.same_take h _ _
  constructor
  · intro agrees
    rw [observe_of_map known, observe_of_map known']
    exact congrArg _ (Observation.eq_of_same fun part => same part (part.eq_at_places agrees))
  · refine ⟨_, _, observe_of_map known, observe_of_map known', same, Observation.livesOf_le _ _, ?_⟩
    intro ended running
    rw [running] at ended ⊢
    exact Observation.lives_of_gameOver ended

/-- A map that names places all over memory: the flags of the aliens go around its end, and the saucer
is looked for in the program. -/
def scattered : AddressMap :=
  { AddressMap.midway with alienGrid := 0xFFCA, ufoX := 0x0001, ufoY := 0x0002 }

/-- This map sees no difference between new machines but in the program, of which it names the first
byte. -/
theorem Built.agrees_scattered {chips chips' : Chips} {m n : Machine} (h : m.Built chips)
    (h' : n.Built chips') : scattered.Agrees m.read n.read where
  single a ha := by
    have all : scattered.places.all (0x2000 ≤ ·.toNat) = true := by decide
    have high : 0x2000 ≤ a.toNat := of_decide_eq_true (List.all_eq_true.1 all a ha)
    rw [h.read_of_le high, h'.read_of_le high]
  grid i hi a place := by
    have base : scattered.alienGrid.toNat = 0xFFCA := rfl
    by_cases last : i = 54
    · have zero : a = 0x0000 := UInt16.toNat_inj.1 (by rw [place, base, last]; rfl)
      rw [zero, (Reachable.built h).regular.read_zero, (Reachable.built h').regular.read_zero]
    · have above : 0x2000 ≤ a.toNat := by omega
      rw [h.read_of_le above, h'.read_of_le above]
  saucer flies := absurd (h.read_of_le (by decide)) flies

theorem Built.start {chips : Chips} {m : Machine} (h : m.Built chips) :
    m.frames = 0 ∧ m.isHalted = false := by
  obtain ⟨program, settings, -, rfl⟩ := h.exists_fresh
  exact ⟨rfl, rfl⟩

/-- Two machines with different programs, that differ where this map looks for the saucer. -/
theorem scattered_observed_alike :
    ∃ m n : Machine, m.Built (codeChips [0x3C]) ∧ n.Built (codeChips [0x76]) ∧
      m.read scattered.ufoX = 0x3C ∧ n.read scattered.ufoX = 0x76 ∧
      scattered.Agrees (m.setMap (some scattered)).read (n.setMap (some scattered)).read ∧
      (m.setMap (some scattered)).observe = (n.setMap (some scattered)).observe := by
  obtain ⟨m, built⟩ : ∃ m : Machine, m.Built (codeChips [0x3C]) := ⟨_, built_coded _⟩
  obtain ⟨n, built'⟩ : ∃ n : Machine, n.Built (codeChips [0x76]) := ⟨_, built_coded _⟩
  have code := (Reachable.built built).read_code (k := 0) (by decide) (by decide)
  have code' := (Reachable.built built').read_code (k := 0) (by decide) (by decide)
  have agrees := built.agrees_scattered built'
  obtain ⟨frames, halted⟩ := built.start
  obtain ⟨frames', halted'⟩ := built'.start
  obtain ⟨alike, -⟩ := observes_named_bytes (m := m.setMap (some scattered))
    (n := n.setMap (some scattered)) rfl rfl (frames.trans frames'.symm) (halted.trans halted'.symm)
  exact ⟨m, n, built, built', code, code', agrees, alike agrees⟩

end Machine

end Cabinet
