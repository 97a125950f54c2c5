import Cabinet.Disk.FileTree
import Cabinet.Proofs.Outcome
/-!
# Places in a file tree

Where a path leads depends on the directories of a tree alone, so a request that makes and removes none
of them leaves every path where it leads (`FileTree.locate_of_sameDirectories`). What such a request does is
told by the places that it touches (`Retouched`), one after the other.

A draft lies beside the file that it is to become: its path is the path of the file with an ending. The
names of the two paths differ in the last one only (`FileTree.exists_names_append`), and the ending makes
a proper name of whatever that is, be it empty, a dot or two. So the two never lead to the same place
(`FileTree.locate_append_ne`).
-/

namespace Cabinet.FileTree

/-! ### What is at a place -/

variable {t t' : FileTree} {x y : List String} {e : Entry}

theorem lookup_filter_ne (entries : List (List String × Entry)) (x y : List String) :
    (entries.filter (·.1 != x)).lookup y = if y = x then none else entries.lookup y := by
  induction entries with
  | nil => simp
  | cons entry rest ih =>
    obtain ⟨z, e⟩ := entry
    by_cases hz : z = x
    · rw [List.filter_cons_of_neg (by simpa using hz), ih, List.lookup_cons]
      split
      · rfl
      · next hy => rw [beq_eq_false_iff_ne.2 (hz ▸ hy)]
    · rw [List.filter_cons_of_pos (by simpa using hz), List.lookup_cons, List.lookup_cons, ih]
      by_cases hy : y = z
      · have kept : y ≠ x := fun h => hz (hy.symm.trans h)
        rw [if_neg kept, if_neg kept]
      · rw [beq_eq_false_iff_ne.2 hy]

theorem get?_erase (t : FileTree) (hx : x ≠ []) (y : List String) :
    (t.erase x).get? y = if y = x then none else t.get? y := by
  unfold get? erase
  rw [lookup_filter_ne]
  split <;> simp_all

theorem get?_insert (t : FileTree) (hx : x ≠ []) (e : Entry) (y : List String) :
    (t.insert x e).get? y = if y = x then some e else t.get? y := by
  by_cases hy : y = x
  · rw [if_pos hy, get?, if_neg (hy ▸ hx), insert, List.lookup_cons, beq_iff_eq.2 hy]
  · have kept := get?_erase t hx y
    rw [if_neg hy] at kept ⊢
    rw [← kept]
    unfold get?
    rw [insert, List.lookup_cons, beq_eq_false_iff_ne.2 hy]

/-! ### Where names lead -/

/-- Two trees with the same directories. -/
def SameDirectories (t t' : FileTree) : Prop :=
  ∀ x, t'.get? x = some .directory ↔ t.get? x = some .directory

/-- A name of a file or a directory: no dot, no two dots, and not too long. -/
structure Proper (name : String) : Prop where
  ne_dot : name ≠ "."
  ne_dots : name ≠ ".."
  length : ¬maxNameLength < name.utf8ByteSize

variable {directory ns rest path : List String} {name : String}

theorem follow_through (hn : Proper name) (h : t.get? (directory ++ [name]) = some .directory) :
    t.follow directory (name :: rest) = t.follow (directory ++ [name]) rest := by
  obtain ⟨dot, dots, length⟩ := hn
  simp only [follow, if_neg length, h]

theorem follow_last (hn : Proper name) : t.follow directory [name] = .ok (directory ++ [name]) := by
  obtain ⟨dot, dots, length⟩ := hn
  simp only [follow, if_neg length]
  split <;> simp_all

theorem directory_of_follow (hn : Proper name) (more : rest ≠ [])
    (h : t.follow directory (name :: rest) = .ok path) :
    t.get? (directory ++ [name]) = some .directory := by
  obtain ⟨dot, dots, length⟩ := hn
  simp only [follow, if_neg length] at h
  split at h <;> simp_all

theorem follow_of_sameDirectories (h : SameDirectories t t')
    (hf : t.follow directory ns = .ok path) : t'.follow directory ns = .ok path := by
  fun_induction follow t directory ns with
  | case1 => exact hf
  | case2 directory rest ih => simpa only [follow] using ih hf
  | case4 directory rest root ih => simpa only [follow, if_neg root] using ih hf
  | case6 directory name rest dot dots length path there ih =>
    rw [follow_through ⟨dot, dots, length⟩ ((h _).2 there)]
    exact ih hf
  | case7 directory name dot dots length => rw [follow_last ⟨dot, dots, length⟩, hf]
  | case3 | case5 | case8 | case9 => cases hf

/-- All names but the last lead to a directory, from which the last one leads on. -/
theorem exists_follow_append (h : t.follow directory (ns ++ [name]) = .ok path) :
    ∃ parent, t.follow directory ns = .ok parent ∧ t.follow parent [name] = .ok path := by
  fun_induction follow t directory ns with
  | case1 directory => exact ⟨directory, rfl, h⟩
  | case2 directory rest ih => exact ih (by simpa only [follow, List.cons_append] using h)
  | case4 directory rest root ih =>
    exact ih (by simpa only [follow, List.cons_append, if_neg root] using h)
  | case6 directory first rest dot dots length path there ih =>
    exact ih (by rwa [List.cons_append, follow_through ⟨dot, dots, length⟩ there] at h)
  | case3 => cases h
  | case5 => simp_all [follow]
  | case7 directory first dot dots length path elsewhere =>
    exact absurd (directory_of_follow ⟨dot, dots, length⟩ (List.cons_ne_nil _ _) h) elsewhere
  | case8 directory first rest dot dots length path contents there more =>
    cases there.symm.trans (directory_of_follow ⟨dot, dots, length⟩ (by simp) h)
  | case9 directory first rest dot dots length path there more =>
    cases there.symm.trans (directory_of_follow ⟨dot, dots, length⟩ (by simp) h)

theorem follow_singleton (dot : name ≠ ".") (dots : name ≠ "..")
    (h : t.follow directory [name] = .ok path) : path = directory ++ [name] := by
  by_cases length : maxNameLength < name.utf8ByteSize
  · simp_all [follow]
  · exact Except.ok.inj (h.symm.trans (follow_last ⟨dot, dots, length⟩))

/-- Where one name may lead. -/
theorem follow_one (h : t.follow directory [name] = .ok path) :
    path = directory ∨ path = directory.dropLast ∨ path = directory ++ [name] := by
  by_cases dot : name = "."
  · subst dot
    exact .inl (Except.ok.inj (by simpa only [follow] using h.symm))
  by_cases dots : name = ".."
  · subst dots
    by_cases root : directory = []
    · simp [follow, root] at h
    · exact .inr (.inl (Except.ok.inj (by simpa only [follow, if_neg root] using h.symm)))
  · exact .inr (.inr (follow_singleton dot dots h))

/-! ### Where a text leads -/

variable {text ending : String} {place : Place}

/-- The place that a text names, if there is one. -/
def place? (t : FileTree) (text : String) : Option Place := (t.locate text).toOption

theorem place?_eq_some_iff : t.place? text = some place ↔ t.locate text = .ok place := by
  unfold place?
  cases t.locate text <;> simp [Except.toOption]

/-- What is at a path. -/
def entryAt (t : FileTree) (text : String) : Option Entry := (t.place? text).bind (t.get? ·.path)

/-- The places of a path: one, or none. -/
def placesOf (t : FileTree) (text : String) : List (List String) :=
  ((t.place? text).map (·.path)).toList

theorem entryAt_of_locate (h : t.locate text = .ok place) : t.entryAt text = t.get? place.path := by
  rw [entryAt, place?_eq_some_iff.2 h, Option.bind_some]

theorem mem_placesOf : x ∈ t.placesOf text ↔ ∃ place, t.locate text = .ok place ∧ place.path = x := by
  simp [placesOf, place?_eq_some_iff]

theorem placesOf_of_locate (h : t.locate text = .ok place) : t.placesOf text = [place.path] := by
  rw [placesOf, place?_eq_some_iff.2 h]
  rfl

theorem locate_eq_ok_iff : t.locate text = .ok place ↔
    ¬(text.isEmpty || text.startsWith "/") ∧
      ¬(text.contains (Char.ofNat 0) || maxPathLength < text.utf8ByteSize) ∧
      t.follow [] (names text) = .ok place.path ∧
      place.isDirectory = (text.endsWith '/' || (names text).getLast? == some "." ||
        (names text).getLast? == some "..") := by
  unfold locate
  simp only [ite_throw_eq_ok_iff, bind_eq_ok_iff, pure, Except.pure, Except.ok.injEq]
  refine and_congr_right fun _ => and_congr_right fun _ => ⟨?_, fun ⟨hf, kind⟩ => ⟨_, hf, ?_⟩⟩
  · rintro ⟨path, hf, rfl⟩
    exact ⟨hf, rfl⟩
  · rw [← kind]

theorem locate_of_sameDirectories (h : SameDirectories t t') (hl : t.locate text = .ok place) :
    t'.locate text = .ok place := by
  obtain ⟨there, short, hf, kind⟩ := locate_eq_ok_iff.1 hl
  exact locate_eq_ok_iff.2 ⟨there, short, follow_of_sameDirectories h hf, kind⟩

/-! ### Beside a file -/

theorem exists_splitOn_append (xs : List Char) {ys : List Char} (h : '/' ∉ ys) :
    ∃ front last, xs.splitOn '/' = front ++ [last] ∧
      (xs ++ ys).splitOn '/' = front ++ [last ++ ys] := by
  induction xs with
  | nil => exact ⟨[], [], List.splitOn_nil _, List.splitOn_eq_singleton h⟩
  | cons x xs ih =>
    obtain ⟨front, last, split, split'⟩ := ih
    rw [List.cons_append, List.splitOn_cons_eq_if_modifyHead, List.splitOn_cons_eq_if_modifyHead, split,
      split']
    by_cases hx : x == '/'
    · rw [if_pos hx, if_pos hx]
      exact ⟨[] :: front, last, rfl, rfl⟩
    · rw [if_neg hx, if_neg hx]
      cases front with
      | nil => exact ⟨[], x :: last, rfl, rfl⟩
      | cons first front => exact ⟨(x :: first) :: front, last, rfl, rfl⟩

/-- An ending without a slash lengthens the last name, or is one by itself. -/
theorem exists_names_append (text : String) (h : '/' ∉ ending.toList) (ne : ending ≠ "") :
    ∃ front last, names text = front ++ (if last = "" then [] else [last]) ∧
      names (text ++ ending) = front ++ [last ++ ending] := by
  obtain ⟨front, last, split, split'⟩ := exists_splitOn_append text.toList h
  refine ⟨(front.map String.ofList).filter (! ·.isEmpty), String.ofList last, ?_, ?_⟩
  · rw [names, split, List.map_append, List.filter_append]
    by_cases empty : String.ofList last = "" <;> simp [empty]
  · have more : String.ofList last ++ ending ≠ "" := by simp [ne]
    rw [names, String.toList_append, split', List.map_append, List.filter_append]
    simp [more]

theorem endsWith_append (text : String) (h : '/' ∉ ending.toList) (ne : ending ≠ "") :
    (text ++ ending).endsWith '/' = false := by
  have chars : ending.toList ≠ [] := by simpa using ne
  rw [String.endsWith_char_eq_getLast?, String.toList_append, List.getLast?_append,
    List.getLast?_eq_some_getLast chars, Option.some_or, beq_eq_false_iff_ne]
  exact fun slash => h (Option.some.inj slash ▸ List.getLast_mem chars)

/-- A path with an ending of more than two characters is that of a file in a directory. The path itself
leads to that directory, to the one above it, or to something else in it. -/
theorem exists_locate_append (h : '/' ∉ ending.toList) (long : 2 < ending.length) {draft : Place}
    (hd : t.locate (text ++ ending) = .ok draft) :
    ∃ parent last, draft = ⟨parent ++ [last ++ ending], false⟩ ∧
      ∀ place, t.locate text = .ok place →
        place.path = parent ∨ place.path = parent.dropLast ∨ place.path = parent ++ [last] := by
  have ne : ending ≠ "" := by rintro rfl; simp at long
  obtain ⟨front, last, split, split'⟩ := exists_names_append text h ne
  obtain ⟨-, -, hf, kind⟩ := locate_eq_ok_iff.1 hd
  have proper (s : String) (hs : s.length ≤ 2) : last ++ ending ≠ s := fun equal => by
    have := congrArg String.length equal
    rw [String.length_append] at this
    omega
  have dot := proper "." (by decide)
  have dots := proper ".." (by decide)
  rw [split'] at hf kind
  obtain ⟨parent, hp, hl⟩ := exists_follow_append hf
  refine ⟨parent, last, ?_, fun place there => ?_⟩
  · have path := follow_singleton dot dots hl
    have file : draft.isDirectory = false := by
      rw [kind, endsWith_append text h ne, List.getLast?_concat]
      simp [dot, dots]
    rw [← path, ← file]
  · have hf' := (locate_eq_ok_iff.1 there).2.2.1
    rw [split] at hf'
    by_cases empty : last = ""
    · rw [if_pos empty, List.append_nil] at hf'
      exact .inl (Except.ok.inj (hf'.symm.trans hp))
    · rw [if_neg empty] at hf'
      obtain ⟨parent', hp', hl'⟩ := exists_follow_append hf'
      cases hp.symm.trans hp'
      exact follow_one hl'

/-- **A path and the same path with an ending lead to different places**, and the latter is that of a
file. -/
theorem locate_append_ne (h : '/' ∉ ending.toList) (long : 2 < ending.length) {draft : Place}
    (hd : t.locate (text ++ ending) = .ok draft) :
    draft.isDirectory = false ∧ ∀ place, t.locate text = .ok place → place.path ≠ draft.path := by
  obtain ⟨parent, last, rfl, beside⟩ := exists_locate_append h long hd
  refine ⟨rfl, fun place there same => ?_⟩
  have one := beside place there
  rw [same] at one
  -- The path of a draft is longer than that of its directory, and its last name than the other's.
  obtain shorter | shorter | other := one
  · have := congrArg List.length shorter
    simp at this
  · have := congrArg List.length shorter
    simp at this
    omega
  · have := congrArg String.length (List.singleton_inj.1 (List.append_cancel_left other))
    rw [String.length_append] at this
    omega

/-! ### What a request leaves alone -/

/-- Between the two trees, at most what is at the places has changed, and no directory. -/
structure Retouched (places : List (List String)) (t t' : FileTree) : Prop where
  /-- Elsewhere everything is as it was. -/
  elsewhere : ∀ x, x ∉ places → t'.get? x = t.get? x
  /-- No directory has been made or removed. -/
  directories : SameDirectories t t'

namespace Retouched

variable {places : List (List String)}

theorem refl (places : List (List String)) (t : FileTree) : Retouched places t t :=
  ⟨fun _ _ => rfl, fun _ => .rfl⟩

theorem trans {t'' : FileTree} (h : Retouched places t t') (h' : Retouched places t' t'') :
    Retouched places t t'' where
  elsewhere x hx := (h'.elsewhere x hx).trans (h.elsewhere x hx)
  directories x := (h'.directories x).trans (h.directories x)

theorem mono {places' : List (List String)} (h : Retouched places t t')
    (sub : ∀ x ∈ places, x ∈ places') : Retouched places' t t' :=
  ⟨fun x hx => h.elsewhere x fun hx' => hx (sub x hx'), h.directories⟩

/-- Every text leads where it led. -/
theorem locate_iff (h : Retouched places t t') : t'.locate text = .ok place ↔ t.locate text = .ok place :=
  ⟨locate_of_sameDirectories fun x => (h.directories x).symm, locate_of_sameDirectories h.directories⟩

theorem place?_eq (h : Retouched places t t') : t'.place? text = t.place? text :=
  Option.ext fun place => by rw [place?_eq_some_iff, place?_eq_some_iff, h.locate_iff]

theorem placesOf_eq (h : Retouched places t t') : t'.placesOf text = t.placesOf text := by
  rw [placesOf, h.place?_eq, placesOf]

/-- What is at a path stays if its place is none of those that are touched. -/
theorem entryAt_eq (h : Retouched places t t') (off : ∀ x ∈ t.placesOf text, x ∉ places) :
    t'.entryAt text = t.entryAt text := by
  rw [entryAt, h.place?_eq, entryAt]
  refine Option.bind_congr fun place there => h.elsewhere _ (off _ ?_)
  exact mem_placesOf.2 ⟨place, place?_eq_some_iff.1 there, rfl⟩

/-- There is a directory at a path if there was one. -/
theorem directory_iff (h : Retouched places t t') :
    t'.entryAt text = some .directory ↔ t.entryAt text = some .directory := by
  simp only [entryAt, h.place?_eq, Option.bind_eq_some_iff, h.directories _]

end Retouched

theorem ne_root (hx : t.get? x ≠ some .directory) : x ≠ [] := fun h => hx (by rw [h, get?, if_pos rfl])

theorem retouched_insert {contents : ByteArray} (hx : t.get? x ≠ some .directory) :
    Retouched [x] t (t.insert x (.file contents)) := by
  refine ⟨fun y hy => ?_, fun y => ?_⟩
  · rw [get?_insert t (ne_root hx), if_neg (by simpa using hy)]
  · rw [get?_insert t (ne_root hx)]
    split <;> simp_all

theorem retouched_erase (hx : t.get? x ≠ some .directory) : Retouched [x] t (t.erase x) := by
  refine ⟨fun y hy => ?_, fun y => ?_⟩
  · rw [get?_erase t (ne_root hx), if_neg (by simpa using hy)]
  · rw [get?_erase t (ne_root hx)]
    split <;> simp_all

/-! ### What requests do -/

variable {contents : ByteArray}

theorem read_eq_ok_iff : t.read text = .ok contents ↔
    ∃ place, t.locate text = .ok place ∧ t.get? place.path = some (.file contents) ∧
      place.isDirectory = false := by
  simp only [read, bind_eq_ok_iff]
  refine exists_congr fun place => and_congr_right fun _ => ?_
  split <;> simp_all [throw, throwThe, MonadExceptOf.throw, pure, Except.pure, bind, Except.bind]
  split <;> simp_all

theorem entryAt_of_read (h : t.read text = .ok contents) : t.entryAt text = some (.file contents) := by
  obtain ⟨place, there, file, -⟩ := read_eq_ok_iff.1 h
  rw [entryAt_of_locate there, file]

theorem write_eq_ok_iff : t.write text contents = .ok t' ↔
    ∃ place, t.locate text = .ok place ∧ t.get? place.path ≠ some .directory ∧
      place.isDirectory = false ∧ t.insert place.path (.file contents) = t' := by
  simp only [write, bind_eq_ok_iff]
  refine exists_congr fun place => and_congr_right fun _ => ?_
  split
  all_goals simp_all [throw, throwThe, MonadExceptOf.throw, pure, Except.pure, bind, Except.bind]
  all_goals split <;> simp_all

theorem write_of_locate (there : t.locate text = .ok place) (free : t.get? place.path ≠ some .directory)
    (file : place.isDirectory = false) (contents : ByteArray) :
    t.write text contents = .ok (t.insert place.path (.file contents)) :=
  write_eq_ok_iff.2 ⟨place, there, free, file, rfl⟩

theorem remove_eq_ok_iff : t.remove text = .ok t' ↔
    ∃ place contents, t.locate text = .ok place ∧ t.get? place.path = some (.file contents) ∧
      place.isDirectory = false ∧ t.erase place.path = t' := by
  simp only [remove, bind_eq_ok_iff]
  refine exists_congr fun place => ?_
  split <;> simp_all [throw, throwThe, MonadExceptOf.throw, pure, Except.pure, bind, Except.bind]
  split <;> simp_all

theorem write_touches (h : t.write text contents = .ok t') :
    Retouched (t.placesOf text) t t' ∧ t'.read text = .ok contents := by
  obtain ⟨place, there, free, file, rfl⟩ := write_eq_ok_iff.1 h
  have touched : Retouched [place.path] t (t.insert place.path (.file contents)) := retouched_insert free
  refine ⟨placesOf_of_locate there ▸ touched, ?_⟩
  refine read_eq_ok_iff.2 ⟨place, touched.locate_iff.2 there, ?_, file⟩
  rw [get?_insert t (ne_root free), if_pos rfl]

theorem remove_touches (h : t.remove text = .ok t') :
    Retouched (t.placesOf text) t t' ∧ t'.entryAt text = none := by
  obtain ⟨place, contents, there, file, -, rfl⟩ := remove_eq_ok_iff.1 h
  have free : t.get? place.path ≠ some .directory := by simp [file]
  have touched : Retouched [place.path] t (t.erase place.path) := retouched_erase free
  refine ⟨placesOf_of_locate there ▸ touched, ?_⟩
  rw [entryAt_of_locate (touched.locate_iff.2 there), get?_erase t (ne_root free), if_pos rfl]

/-- A file is moved to any place that is none of a directory. -/
theorem exists_move_eq_ok {target : String} (source : t.read text = .ok contents)
    (there : t.locate target = .ok place) (free : t.get? place.path ≠ some .directory)
    (file : place.isDirectory = false) : ∃ t', t.move text target = .ok t' := by
  obtain ⟨here, located, contents', kind⟩ := read_eq_ok_iff.1 source
  have removed := remove_eq_ok_iff.2 ⟨here, contents, located, contents', kind, rfl⟩
  obtain ⟨touched, -⟩ := remove_touches removed
  have written := write_of_locate (touched.locate_iff.2 there) (mt (touched.directories _).1 free) file
    contents
  exact ⟨_, bind_eq_ok_iff.2 ⟨_, source, bind_eq_ok_iff.2 ⟨_, removed, written⟩⟩⟩

/-- What cannot be removed is no file. -/
theorem read_ne_of_remove {cause : DiskError} (h : t.remove text = .error cause) (contents : ByteArray) :
    t.read text ≠ .ok contents := by
  intro read
  obtain ⟨place, there, file, kind⟩ := read_eq_ok_iff.1 read
  cases h.symm.trans (remove_eq_ok_iff.2 ⟨place, contents, there, file, kind, rfl⟩)

/-- What is at the path of a file and cannot be read as a file is a directory. -/
theorem eq_directory_of_read_ne (h : ∀ contents, t.read text ≠ .ok contents)
    (there : t.locate text = .ok place) (file : place.isDirectory = false) (he : t.entryAt text = some e) :
    e = .directory := by
  rw [entryAt_of_locate there] at he
  cases e with
  | directory => rfl
  | file contents => exact absurd (read_eq_ok_iff.2 ⟨place, there, he, file⟩) (h contents)

theorem move_touches {target : String} (h : t.move text target = .ok t') :
    Retouched (t.placesOf target ++ t.placesOf text) t t' ∧
      ∃ contents, t.read text = .ok contents ∧ t'.read target = .ok contents ∧
        (t.placesOf text ≠ t.placesOf target → t'.entryAt text = none) := by
  obtain ⟨contents, source, h⟩ := bind_eq_ok_iff.1 h
  obtain ⟨between, removed, written⟩ := bind_eq_ok_iff.1 h
  obtain ⟨first, gone⟩ := remove_touches removed
  obtain ⟨second, done⟩ := write_touches written
  rw [first.placesOf_eq] at second
  refine ⟨?_, contents, source, done, fun other => ?_⟩
  · exact (first.mono fun x hx => List.mem_append_right _ hx).trans
      (second.mono fun x hx => List.mem_append_left _ hx)
  · rw [second.entryAt_eq, gone]
    rw [first.placesOf_eq]
    intro x hx hx'
    obtain ⟨place, there, rfl⟩ := mem_placesOf.1 hx
    obtain ⟨goal, there', same⟩ := mem_placesOf.1 hx'
    rw [placesOf_of_locate there, placesOf_of_locate there', same] at other
    exact other rfl

end Cabinet.FileTree
