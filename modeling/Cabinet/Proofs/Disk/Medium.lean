import Cabinet.Bytes
import Cabinet.Proofs.Disk.Places
/-!
# Disks that can fail

A disk may fail in the middle of a request, and what it holds then depends on how far it has come. So a
disk is looked at in the course of its requests: it goes through one file tree after the other
(`Course`), and how it writes, moves and removes files is given (`Medium`). It is only asked that it does
no more than it has to (`Medium.Lawful`). Writing touches nothing but the file that is written, whether it
succeeds or fails half way. Moving puts the file into the place of the other one at one stroke, or fails
and leaves that place alone. Removing is the one request of which it is asked that it never fails where
it can be done: a file that is to be removed is gone afterwards.

The disk that a file tree is, with a file written in two steps, is of this kind (`stepwise_lawful`).
-/

namespace Cabinet

/-! ### Courses -/

/-- What a disk holds, and what it has held. -/
structure Course where
  /-- What it holds. -/
  now : FileTree
  /-- What it has held before, the latest first. -/
  past : List FileTree := []

namespace Course

/-- The course after the disk has gone through the trees, in their order. -/
def through (c : Course) : List FileTree → Course
  | [] => c
  | t :: ts => through { now := t, past := c.now :: c.past } ts

theorem through_append (c : Course) (ts us : List FileTree) :
    c.through (ts ++ us) = (c.through ts).through us := by
  induction ts generalizing c with
  | nil => rfl
  | cons t ts ih => exact ih _

/-- What holds of every tree that a disk goes through holds of what it comes to. -/
theorem now_through {p : FileTree → Prop} {c : Course} {ts : List FileTree} (h : p c.now)
    (hts : ∀ t ∈ ts, p t) : p (c.through ts).now := by
  induction ts generalizing c with
  | nil => exact h
  | cons t ts ih =>
    exact ih (hts t (List.mem_cons_self ..)) fun u hu => hts u (List.mem_cons_of_mem _ hu)

end Course

/-! ### Media -/

/-- How a disk writes, moves and removes files: what it answers, and which trees it goes through. -/
structure Medium where
  /-- Makes a file, or replaces its contents. -/
  write : Course → String → ByteArray → Except DiskError Unit × List FileTree
  /-- Moves a file over whatever file has the new path. -/
  move : Course → String → String → Except DiskError Unit × List FileTree
  /-- Removes a file. -/
  remove : Course → String → Except DiskError Unit × List FileTree

namespace Medium

open FileTree (Retouched)

/-- A disk does no more than it is asked for. -/
structure Lawful (d : Medium) : Prop where
  /-- At no time does writing touch anything but the file. -/
  write_touches : ∀ c text contents, ∀ t ∈ (d.write c text contents).2,
    Retouched (c.now.placesOf text) c.now t
  /-- What has been written is read. -/
  write_done : ∀ c text contents, (d.write c text contents).1 = .ok () →
    (c.through (d.write c text contents).2).now.read text = .ok contents
  /-- At no time does moving touch anything but the two files. -/
  move_touches : ∀ c text target, ∀ t ∈ (d.move c text target).2,
    Retouched (c.now.placesOf target ++ c.now.placesOf text) c.now t
  /-- At every time the new path has what it had, or the file that is moved. -/
  move_replaces : ∀ c text target, ∀ t ∈ (d.move c text target).2,
    t.entryAt target = c.now.entryAt target ∨
      ∃ contents, c.now.read text = .ok contents ∧ t.entryAt target = some (.file contents)
  /-- A file that has been moved is read at its new path, and is gone from the old one. -/
  move_done : ∀ c text target, (d.move c text target).1 = .ok () →
    ∃ contents, c.now.read text = .ok contents ∧
      (c.through (d.move c text target).2).now.read target = .ok contents ∧
      (c.now.placesOf text ≠ c.now.placesOf target →
        (c.through (d.move c text target).2).now.entryAt text = none)
  /-- Moving that fails leaves all but the file alone. -/
  move_failed : ∀ c text target e, (d.move c text target).1 = .error e →
    Retouched (c.now.placesOf text) c.now (c.through (d.move c text target).2).now
  /-- At no time does removing touch anything but the file. -/
  remove_touches : ∀ c text, ∀ t ∈ (d.remove c text).2, Retouched (c.now.placesOf text) c.now t
  /-- Whatever the answer is, after removing there is no file. -/
  remove_done : ∀ (c : Course) text contents,
    (c.through (d.remove c text).2).now.read text ≠ .ok contents

/-- A program on a disk: it gives a result, and takes the disk along. -/
def Run (_ : Medium) (α : Type) : Type := Course → α × Course

variable {d : Medium}

instance : Monad d.Run where
  pure a := fun c => (a, c)
  bind x f := fun c => f (x c).1 (x c).2

/-- Runs a program; gives its result and the course of the disk. -/
def run (d : Medium) {α : Type} (program : d.Run α) (c : Course) : α × Course := program c

/-- Takes a disk through the trees of an answer. -/
def advance (c : Course) (x : Except DiskError Unit × List FileTree) : Except DiskError Unit × Course :=
  (x.1, c.through x.2)

/-- Files are written, moved and removed as the disk does it; looking changes nothing. -/
instance : MonadDisk d.Run where
  kindOf text := fun c => (c.now.kindOf text, c)
  read text := fun c => (c.now.read text, c)
  write text contents := fun c => advance c (d.write c text contents)
  move text target := fun c => advance c (d.move c text target)
  remove text := fun c => advance c (d.remove c text)
  list text := fun c => (c.now.list text, c)

section

variable {α β : Type} (c : Course) (text target : String) (contents : ByteArray)

theorem run_pure (a : α) : d.run (pure a) c = (a, c) := rfl

theorem run_bind (x : d.Run α) (f : α → d.Run β) :
    d.run (x >>= f) c = d.run (f (d.run x c).1) (d.run x c).2 := rfl

theorem run_read : d.run (MonadDisk.read text) c = (c.now.read text, c) := rfl

theorem run_write :
    d.run (MonadDisk.write text contents) c =
      ((d.write c text contents).1, c.through (d.write c text contents).2) := rfl

theorem run_move :
    d.run (MonadDisk.move text target) c =
      ((d.move c text target).1, c.through (d.move c text target).2) := rfl

theorem run_remove :
    d.run (MonadDisk.remove text) c = ((d.remove c text).1, c.through (d.remove c text).2) := rfl

end

/-! ### The disk that a file tree is -/

/-- A file tree with room for files of `capacity` bytes. A file is written in two steps: it is made, or
emptied, and then filled; what does not fit is left out, and the writing fails. -/
def stepwise (capacity : Nat) : Medium where
  write c text contents :=
    match c.now.write text .empty with
    | .error e => (.error e, [])
    | .ok t =>
      match t.write text (contents.extract 0 capacity) with
      | .error e => (.error e, [t])
      | .ok u => (if contents.size ≤ capacity then .ok () else .error .other, [t, u])
  move c text target :=
    match c.now.move text target with
    | .error e => (.error e, [])
    | .ok t => (.ok (), [t])
  remove c text :=
    match c.now.remove text with
    | .error e => (.error e, [])
    | .ok t => (.ok (), [t])

section

variable {capacity : Nat} {c : Course} {text target : String} {contents : ByteArray}
  {place : FileTree.Place}

theorem stepwise_write_touches (capacity : Nat) (c : Course) (text : String) (contents : ByteArray) :
    ∀ t ∈ ((stepwise capacity).write c text contents).2, Retouched (c.now.placesOf text) c.now t := by
  intro t ht
  simp only [stepwise] at ht
  cases first : c.now.write text .empty with
  | error e => simp [first] at ht
  | ok u =>
    obtain ⟨made, -⟩ := FileTree.write_touches first
    cases second : u.write text (contents.extract 0 capacity) with
    | error e =>
      simp only [first, second, List.mem_singleton] at ht
      exact ht ▸ made
    | ok v =>
      obtain ⟨filled, -⟩ := FileTree.write_touches second
      rw [made.placesOf_eq] at filled
      simp only [first, second, List.mem_cons, List.not_mem_nil, or_false] at ht
      obtain rfl | rfl := ht
      · exact made
      · exact made.trans filled

/-- What does not fit is not written. -/
theorem stepwise_write_error (more : capacity < contents.size) :
    ∃ e, ((stepwise capacity).write c text contents).1 = .error e := by
  simp only [stepwise]
  split
  · exact ⟨_, rfl⟩
  split
  · exact ⟨_, rfl⟩
  · exact ⟨_, if_neg (Nat.not_le_of_lt more)⟩

theorem stepwise_write_done (h : ((stepwise capacity).write c text contents).1 = .ok ()) :
    (c.through ((stepwise capacity).write c text contents).2).now.read text = .ok contents := by
  have fits : contents.size ≤ capacity := by
    refine Nat.le_of_not_lt fun more => ?_
    obtain ⟨e, failed⟩ := stepwise_write_error (c := c) more
    cases h.symm.trans failed
  simp only [stepwise, Bytes.extract_of_size_le fits] at h ⊢
  cases first : c.now.write text .empty with
  | error e => simp [first] at h
  | ok u =>
    cases second : u.write text contents with
    | error e => simp [first, second] at h
    | ok v =>
      simp only [second]
      exact (FileTree.write_touches second).2

/-- Moving is done at one stroke, or not at all. -/
theorem stepwise_move_cases (capacity : Nat) (c : Course) (text target : String) :
    (∃ e, (stepwise capacity).move c text target = (.error e, [])) ∨
      ∃ t, c.now.move text target = .ok t ∧ (stepwise capacity).move c text target = (.ok (), [t]) := by
  simp only [stepwise]
  cases c.now.move text target with
  | error e => exact .inl ⟨e, rfl⟩
  | ok t => exact .inr ⟨t, rfl, rfl⟩

/-- So is removing. -/
theorem stepwise_remove_cases (capacity : Nat) (c : Course) (text : String) :
    (∃ e, c.now.remove text = .error e ∧ (stepwise capacity).remove c text = (.error e, [])) ∨
      ∃ t, c.now.remove text = .ok t ∧ (stepwise capacity).remove c text = (.ok (), [t]) := by
  simp only [stepwise]
  cases c.now.remove text with
  | error e => exact .inl ⟨e, rfl, rfl⟩
  | ok t => exact .inr ⟨t, rfl, rfl⟩

theorem stepwise_lawful (capacity : Nat) : (stepwise capacity).Lawful where
  write_touches := stepwise_write_touches capacity
  write_done _ _ _ := stepwise_write_done
  move_touches c text target t ht := by
    obtain ⟨e, move⟩ | ⟨u, moved, move⟩ := stepwise_move_cases capacity c text target
    · exact absurd (move ▸ ht) List.not_mem_nil
    · rw [move] at ht
      exact List.mem_singleton.1 ht ▸ (FileTree.move_touches moved).1
  move_replaces c text target t ht := by
    obtain ⟨e, move⟩ | ⟨u, moved, move⟩ := stepwise_move_cases capacity c text target
    · exact absurd (move ▸ ht) List.not_mem_nil
    · rw [move] at ht
      obtain ⟨-, contents, source, done, -⟩ := FileTree.move_touches moved
      exact .inr ⟨contents, source, List.mem_singleton.1 ht ▸ FileTree.entryAt_of_read done⟩
  move_done c text target h := by
    obtain ⟨e, move⟩ | ⟨u, moved, move⟩ := stepwise_move_cases capacity c text target
    · cases (congrArg Prod.fst move).symm.trans h
    · rw [move]
      exact (FileTree.move_touches moved).2
  move_failed c text target e h := by
    obtain ⟨e, move⟩ | ⟨u, moved, move⟩ := stepwise_move_cases capacity c text target
    · rw [move]
      exact Retouched.refl _ _
    · cases (congrArg Prod.fst move).symm.trans h
  remove_touches c text t ht := by
    obtain ⟨e, -, remove⟩ | ⟨u, removed, remove⟩ := stepwise_remove_cases capacity c text
    · exact absurd (remove ▸ ht) List.not_mem_nil
    · rw [remove] at ht
      exact List.mem_singleton.1 ht ▸ (FileTree.remove_touches removed).1
  remove_done c text contents := by
    obtain ⟨e, failed, remove⟩ | ⟨u, removed, remove⟩ := stepwise_remove_cases capacity c text
    · rw [remove]
      exact FileTree.read_ne_of_remove failed contents
    · rw [remove]
      intro read
      cases (FileTree.remove_touches removed).2.symm.trans (FileTree.entryAt_of_read read)

theorem stepwise_write_ok (fits : contents.size ≤ capacity) (there : c.now.locate text = .ok place)
    (free : c.now.get? place.path ≠ some .directory) (file : place.isDirectory = false) :
    ((stepwise capacity).write c text contents).1 = .ok () := by
  have first := FileTree.write_of_locate there free file .empty
  have made := (FileTree.write_touches first).1
  have second := FileTree.write_of_locate (made.locate_iff.2 there) (mt (made.directories _).1 free) file
    (contents.extract 0 capacity)
  simp only [stepwise, first, second, if_pos fits]

theorem stepwise_move_ok (source : c.now.read text = .ok contents)
    (there : c.now.locate target = .ok place) (free : c.now.get? place.path ≠ some .directory)
    (file : place.isDirectory = false) : ((stepwise capacity).move c text target).1 = .ok () := by
  obtain ⟨t, moved⟩ := FileTree.exists_move_eq_ok source there free file
  simp only [stepwise, moved]

end

end Medium

end Cabinet
