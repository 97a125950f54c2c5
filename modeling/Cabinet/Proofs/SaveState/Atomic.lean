import Cabinet.Proofs.Disk.Medium
import Cabinet.Proofs.SaveState.RoundTrip
import Cabinet.SaveState.File
/-!
# Saving to a file is atomic

A save state is written beside its file and then moved over it. Whatever goes wrong on the way, on any
disk that does no more than it is asked for (`Medium.Lawful`), the file has its old contents until it has
all of the new ones, and a saving that fails leaves no draft behind that was not there before.

The draft is never at the place of the file (`path_off_draft`), so the file is left alone while the draft
is written and removed. Between these two the draft is moved; this is the only time at which the file
can change, and then it changes as a whole.
-/

namespace Cabinet.SaveState

open FileTree (Retouched)

variable {d : Medium} {c : Course} {t t' : FileTree} {path : String} {contents : ByteArray}

/-- Of a draft and its file, the draft is that of a file, and not at the place of the other. -/
theorem draft_beside {place : FileTree.Place} (h : t.locate (draftPath path) = .ok place) :
    place.isDirectory = false ∧ ∀ goal, t.locate path = .ok goal → goal.path ≠ place.path :=
  FileTree.locate_append_ne (by decide) (by decide) h

theorem path_off_draft {x : List String} (h : x ∈ t.placesOf path) :
    x ∉ t.placesOf (draftPath path) := by
  intro h'
  obtain ⟨goal, there, rfl⟩ := FileTree.mem_placesOf.1 h
  obtain ⟨place, there', same⟩ := FileTree.mem_placesOf.1 h'
  exact (draft_beside there').2 goal there same.symm

theorem placesOf_draft_ne {place : FileTree.Place} (h : t.locate (draftPath path) = .ok place) :
    t.placesOf (draftPath path) ≠ t.placesOf path := by
  intro same
  have here : place.path ∈ t.placesOf (draftPath path) := FileTree.mem_placesOf.2 ⟨place, h, rfl⟩
  exact path_off_draft (same ▸ here) here

/-! ### What is seen of the file -/

/-- As far as a tree `t'` that a disk comes to from `t` goes, the file at `path` has its old contents or
the new ones, and nothing but the file and the draft has been touched. -/
structure Intact (path : String) (contents : ByteArray) (t t' : FileTree) : Prop where
  /-- The file is what it was, or all that it is to become. -/
  entry : t'.entryAt path = t.entryAt path ∨ t'.entryAt path = some (.file contents)
  /-- Nothing else has changed. -/
  touched : Retouched (t.placesOf path ++ t.placesOf (draftPath path)) t t'

/-- What touches the draft only leaves the file as it is. -/
theorem entryAt_of_draft (h : Retouched (t.placesOf (draftPath path)) t t') :
    t'.entryAt path = t.entryAt path :=
  h.entryAt_eq fun _ => path_off_draft

theorem intact_of_draft (h : Retouched (t.placesOf (draftPath path)) t t') :
    Intact path contents t t' where
  entry := .inl (entryAt_of_draft h)
  touched := h.mono fun _ => List.mem_append_right _

/-- How a saving may end. -/
inductive Ending (path : String) (contents : ByteArray) (t t' : FileTree) :
    Except SaveStateError Unit → Prop where
  /-- The file has the new contents, and there is no draft. -/
  | saved (file : t'.read path = .ok contents) (draft : t'.entryAt (draftPath path) = none) :
    Ending path contents t t' (.ok ())
  /-- The file is what it was, and there is no draft that was not there before. -/
  | failed (e : SaveStateError) (file : t'.entryAt path = t.entryAt path)
      (draft : ∀ x, t'.entryAt (draftPath path) = some x → t.entryAt (draftPath path) = some x) :
    Ending path contents t t' (.error e)

/-- Removing the draft touches nothing else, and then there is at most a directory in its place. -/
theorem exists_remove_draft (hd : d.Lawful) (c : Course) (path : String) :
    ∃ answer ts, d.run (MonadDisk.remove (draftPath path)) c = (answer, c.through ts) ∧
      (∀ t ∈ ts, Retouched (c.now.placesOf (draftPath path)) c.now t) ∧
      ∀ x, (c.through ts).now.entryAt (draftPath path) = some x → x = .directory := by
  refine ⟨_, _, d.run_remove .., hd.remove_touches c (draftPath path), fun x hx => ?_⟩
  obtain ⟨place, there, -⟩ := Option.bind_eq_some_iff.1 hx
  rw [FileTree.place?_eq_some_iff] at there
  exact FileTree.eq_directory_of_read_ne (hd.remove_done c (draftPath path)) there
    (draft_beside there).1 hx

/-! ### The steps of a saving -/

section

variable {ts us : List FileTree} {cause : DiskError}

theorem run_replaceFile_of_write_error (h : d.write c (draftPath path) contents = (.error cause, ts)) :
    d.run (replaceFile path contents) c =
      (.error .io, (d.run (MonadDisk.remove (draftPath path)) (c.through ts)).2) := by
  rw [replaceFile, Medium.run_bind, Medium.run_write, h]
  rfl

theorem run_replaceFile_of_move_error (h : d.write c (draftPath path) contents = (.ok (), ts))
    (h' : d.move (c.through ts) (draftPath path) path = (.error cause, us)) :
    d.run (replaceFile path contents) c =
      (.error .io, (d.run (MonadDisk.remove (draftPath path)) (c.through (ts ++ us))).2) := by
  rw [replaceFile, Medium.run_bind, Medium.run_write, h]
  show d.run (MonadDisk.move _ _ >>= _) _ = _
  rw [Medium.run_bind, Medium.run_move, h', Course.through_append]
  rfl

theorem run_replaceFile_of_move_ok (h : d.write c (draftPath path) contents = (.ok (), ts))
    (h' : d.move (c.through ts) (draftPath path) path = (.ok (), us)) :
    d.run (replaceFile path contents) c = (.ok (), c.through (ts ++ us)) := by
  rw [replaceFile, Medium.run_bind, Medium.run_write, h]
  show d.run (MonadDisk.move _ _ >>= _) _ = _
  rw [Medium.run_bind, Medium.run_move, h', Course.through_append]
  rfl

end

/-- If all goes well but for the last step, which has touched the draft only, the draft is removed. -/
theorem exists_give_up (hd : d.Lawful) {ts : List FileTree}
    (hts : ∀ t ∈ ts, Intact path contents c.now t)
    (last : Retouched (c.now.placesOf (draftPath path)) c.now (c.through ts).now) :
    ∃ us, (d.run (MonadDisk.remove (draftPath path)) (c.through ts)).2 = c.through (ts ++ us) ∧
      Ending path contents c.now (c.through (ts ++ us)).now (.error .io) ∧
      ∀ t ∈ ts ++ us, Intact path contents c.now t := by
  obtain ⟨answer, us, removed, touched, gone⟩ := exists_remove_draft hd (c.through ts) path
  have drafts : ∀ t ∈ us, Retouched (c.now.placesOf (draftPath path)) c.now t := fun t ht =>
    last.trans (last.placesOf_eq ▸ touched t ht)
  have final : Retouched (c.now.placesOf (draftPath path)) c.now (c.through (ts ++ us)).now := by
    rw [Course.through_append]
    exact Course.now_through last drafts
  refine ⟨us, by rw [removed, Course.through_append], .failed _ (entryAt_of_draft final) ?_, ?_⟩
  · -- What is left is a directory, and no directory has been made.
    intro x hx
    rw [Course.through_append] at hx
    cases gone x hx
    rw [← Course.through_append] at hx
    exact final.directory_iff.1 hx
  · intro t ht
    obtain ht | ht := List.mem_append.1 ht
    · exact hts t ht
    · exact intact_of_draft (drafts t ht)

/-- While the draft is moved, the file has what it had, or all of the draft. -/
theorem intact_of_move (hd : d.Lawful) {c' : Course}
    (drafted : Retouched (c.now.placesOf (draftPath path)) c.now c'.now)
    (done : c'.now.read (draftPath path) = .ok contents) :
    ∀ t ∈ (d.move c' (draftPath path) path).2, Intact path contents c.now t := by
  intro t ht
  have moved := hd.move_touches c' (draftPath path) path t ht
  rw [drafted.placesOf_eq, drafted.placesOf_eq] at moved
  refine ⟨?_, (drafted.mono fun _ => List.mem_append_right _).trans moved⟩
  obtain old | ⟨contents', read, new⟩ := hd.move_replaces c' (draftPath path) path t ht
  · exact .inl (old.trans (entryAt_of_draft drafted))
  · cases done.symm.trans read
    exact .inr new

/-- Bytes are put in the place of a file as a whole or not at all. -/
theorem replaceFile_intact (hd : d.Lawful) (c : Course) (path : String) (contents : ByteArray) :
    ∃ answer ts, d.run (replaceFile path contents) c = (answer, c.through ts) ∧
      Ending path contents c.now (c.through ts).now answer ∧
      ∀ t ∈ ts, Intact path contents c.now t := by
  obtain ⟨first, ts, write⟩ : ∃ first ts,
    d.write c (draftPath path) contents = (first, ts) := ⟨_, _, rfl⟩
  have touched := hd.write_touches c (draftPath path) contents
  rw [write] at touched
  have drafted : Retouched (c.now.placesOf (draftPath path)) c.now (c.through ts).now :=
    Course.now_through (.refl _ _) touched
  have written (t : FileTree) (ht : t ∈ ts) : Intact path contents c.now t :=
    intact_of_draft (touched t ht)
  cases first with
  | error cause =>
    obtain ⟨us, removed, ending, intact⟩ := exists_give_up hd written drafted
    exact ⟨_, _, by rw [run_replaceFile_of_write_error write, removed], ending, intact⟩
  | ok =>
    have complete := hd.write_done c (draftPath path) contents (congrArg Prod.fst write)
    rw [write] at complete
    obtain ⟨second, us, move⟩ : ∃ second us,
      d.move (c.through ts) (draftPath path) path = (second, us) := ⟨_, _, rfl⟩
    have moving := intact_of_move hd drafted complete
    rw [move] at moving
    have intact (t : FileTree) (ht : t ∈ ts ++ us) : Intact path contents c.now t :=
      (List.mem_append.1 ht).elim (written t) (moving t)
    cases second with
    | error cause =>
      have left := hd.move_failed (c.through ts) (draftPath path) path cause (congrArg Prod.fst move)
      rw [move, drafted.placesOf_eq, ← Course.through_append] at left
      obtain ⟨vs, removed, ending, intact⟩ := exists_give_up hd intact (drafted.trans left)
      exact ⟨_, _, by rw [run_replaceFile_of_move_error write move, removed], ending, intact⟩
    | ok =>
      have moved := hd.move_done (c.through ts) (draftPath path) path (congrArg Prod.fst move)
      rw [move, ← Course.through_append] at moved
      obtain ⟨contents', read, file, gone⟩ := moved
      cases complete.symm.trans read
      obtain ⟨place, there, -⟩ := FileTree.read_eq_ok_iff.1 read
      exact ⟨_, _, run_replaceFile_of_move_ok write move, .saved file (gone (placesOf_draft_ne there)),
        intact⟩

/-- **Saving is atomic**, on every disk that does no more than it is asked for. A record that does not
pass the check is refused, and the disk does not change at all. Any other saving succeeds, and then the
record is read back from the file, and the draft is gone, or it fails, and then the file is what it was,
and there is no draft that was not there before. At every time in between the file is what it was, or has
all of the bytes of the record, and nothing but the file and the draft changes.

Writing and moving may fail at any point; removing the draft does not, which is one of the things asked of
the disk. A path is one of the tree: one that begins with a slash leads out of it, and all that is said
there is that saving fails and leaves the tree alone. -/
theorem writeTo_atomic {d : Medium} (hd : d.Lawful) (s : SaveState) (c : Course) (path : String) :
    ∃ answer ts, d.run (s.writeTo path) c = (answer, c.through ts) ∧
      (∀ e, s.validate = .error e → answer = .error e ∧ ts = []) ∧
      Ending path s.toBytes c.now (c.through ts).now answer ∧
      (answer = .ok () → d.run (readFrom path) (c.through ts) = (.ok s, c.through ts)) ∧
      ∀ t ∈ ts, Intact path s.toBytes c.now t := by
  cases hs : s.validate with
  | error e =>
    refine ⟨.error e, [], ?_, fun e' h => ⟨congrArg _ (Except.error.inj h), rfl⟩,
      .failed e rfl fun _ => id, nofun, fun _ ht => absurd ht List.not_mem_nil⟩
    rw [writeTo, hs]
    rfl
  | ok =>
    obtain ⟨answer, ts, run, ending, intact⟩ := replaceFile_intact hd c path s.toBytes
    refine ⟨answer, ts, ?_, nofun, ending, ?_, intact⟩
    · rw [writeTo, hs]
      exact run
    · rintro rfl
      cases ending with
      | saved file draft =>
        rw [readFrom, Medium.run_bind, Medium.run_read, file]
        show d.run (pure _) _ = _
        rw [Medium.run_pure, ofBytes_toBytes hs]

/-! ### A disk with room and a disk without -/

section

variable {capacity : Nat} {place draft : FileTree.Place}

/-- A stepwise disk with room puts bytes in the place of a file unless there is a directory in the way. -/
theorem stepwise_replaceFile_ok (fits : contents.size ≤ capacity) (there : c.now.locate path = .ok place)
    (free : c.now.get? place.path ≠ some .directory) (file : place.isDirectory = false)
    (there' : c.now.locate (draftPath path) = .ok draft)
    (free' : c.now.get? draft.path ≠ some .directory) :
    ((Medium.stepwise capacity).run (replaceFile path contents) c).1 = .ok () := by
  have lawful := Medium.stepwise_lawful capacity
  have written := Medium.stepwise_write_ok fits there' free' (draft_beside there').1
  have drafted := Course.now_through (.refl (c.now.placesOf (draftPath path)) c.now)
    (lawful.write_touches c (draftPath path) contents)
  have moved : ((Medium.stepwise capacity).move _ (draftPath path) path).1 = .ok () :=
    Medium.stepwise_move_ok (lawful.write_done _ _ _ written) (drafted.locate_iff.2 there)
      (mt (drafted.directories _).1 free) file
  rw [run_replaceFile_of_move_ok (Prod.ext written rfl) (Prod.ext moved rfl)]

/-- A stepwise disk without room does not. -/
theorem stepwise_replaceFile_error (more : capacity < contents.size) :
    ((Medium.stepwise capacity).run (replaceFile path contents) c).1 = .error .io := by
  obtain ⟨cause, failed⟩ : ∃ e,
    ((Medium.stepwise capacity).write c (draftPath path) contents).1 = .error e :=
      Medium.stepwise_write_error more
  rw [run_replaceFile_of_write_error (Prod.ext failed rfl)]

end

/-- A directory with one file. -/
def shelf : FileTree where
  entries := [(["saves"], .directory), (["saves", "slot"], .file (Bytes.ofList [1, 2, 3]))]

theorem locate_shelf : shelf.locate "saves/slot" = .ok ⟨["saves", "slot"], false⟩ ∧
    shelf.locate "saves/slot.tmp" = .ok ⟨["saves", "slot.tmp"], false⟩ := by
  have short : ¬4095 < "saves/slot".utf8ByteSize ∧ ¬4095 < "saves/slot.tmp".utf8ByteSize := by decide
  constructor
  all_goals
    refine FileTree.locate_eq_ok_iff.2 ⟨by simp, by simp [FileTree.maxPathLength, short], rfl, ?_⟩
    rw [String.endsWith_char_eq_getLast?]
    decide

theorem shelf_saves_or_keeps :
    (Medium.stepwise 237623).Lawful ∧ (Medium.stepwise 1000).Lawful ∧
      (∃ ts, (Medium.stepwise 237623).run (writeTo {} "saves/slot") ⟨shelf, []⟩ =
          (.ok (), Course.through ⟨shelf, []⟩ ts) ∧
        (Course.through ⟨shelf, []⟩ ts).now.entryAt "saves/slot.tmp" = none ∧
        (Medium.stepwise 237623).run (readFrom "saves/slot") (Course.through ⟨shelf, []⟩ ts) =
          (.ok {}, Course.through ⟨shelf, []⟩ ts)) ∧
      ∃ ts, (Medium.stepwise 1000).run (writeTo {} "saves/slot") ⟨shelf, []⟩ =
          (.error .io, Course.through ⟨shelf, []⟩ ts) ∧
        (Course.through ⟨shelf, []⟩ ts).now.entryAt "saves/slot" =
          some (.file (Bytes.ofList [1, 2, 3])) ∧
        (Course.through ⟨shelf, []⟩ ts).now.entryAt "saves/slot.tmp" = none := by
  have passes : ({} : SaveState).validate = .ok () :=
    validate_eq_ok_iff.2 ⟨⟨Array.size_replicate, Bytes.size_zeros _⟩, .inl rfl⟩
  have size : ({} : SaveState).toBytes.size = 237623 := (ofBytes_eq_ok_iff.1 (ofBytes_toBytes passes)).1
  have lawful := Medium.stepwise_lawful
  obtain ⟨here, beside⟩ := locate_shelf
  have slot : shelf.get? ["saves", "slot"] = some (.file (Bytes.ofList [1, 2, 3])) := rfl
  have free : shelf.get? ["saves", "slot.tmp"] = none := rfl
  have run (capacity : Nat) : (Medium.stepwise capacity).run (writeTo {} "saves/slot") ⟨shelf, []⟩ =
      (Medium.stepwise capacity).run (replaceFile "saves/slot" ({} : SaveState).toBytes) ⟨shelf, []⟩ := by
    rw [writeTo, passes]
  refine ⟨lawful _, lawful _, ?_, ?_⟩
  · obtain ⟨answer, ts, saved, -, ending, read, -⟩ :=
      writeTo_atomic (lawful 237623) {} ⟨shelf, []⟩ "saves/slot"
    have overFile : shelf.get? ["saves", "slot"] ≠ some .directory := by simp [slot]
    have beyond : shelf.get? ["saves", "slot.tmp"] ≠ some .directory := by simp [free]
    have ok : ((Medium.stepwise 237623).run (writeTo {} "saves/slot") ⟨shelf, []⟩).1 = .ok () := by
      rw [run]
      exact stepwise_replaceFile_ok (Nat.le_of_eq size) here overFile rfl beside beyond
    rw [saved] at ok
    obtain rfl : answer = .ok () := ok
    cases ending with
    | saved file draft => exact ⟨ts, saved, draft, read rfl⟩
  · obtain ⟨answer, ts, failed, -, ending, -⟩ :=
      writeTo_atomic (lawful 1000) {} ⟨shelf, []⟩ "saves/slot"
    have more : 1000 < ({} : SaveState).toBytes.size := by rw [size]; decide
    have error : ((Medium.stepwise 1000).run (writeTo {} "saves/slot") ⟨shelf, []⟩).1 = .error .io := by
      rw [run]
      exact stepwise_replaceFile_error more
    rw [failed] at error
    obtain rfl : answer = .error .io := error
    cases ending with
    | failed e file draft =>
      refine ⟨ts, failed, ?_, ?_⟩
      · rw [file, FileTree.entryAt_of_locate here, slot]
      · refine Option.eq_none_iff_forall_ne_some.2 fun x there => ?_
        have before : shelf.entryAt "saves/slot.tmp" = some x := draft x there
        rw [FileTree.entryAt_of_locate beside, free] at before
        cases before

end Cabinet.SaveState
