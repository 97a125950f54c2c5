import Cabinet.Program
import Cabinet.Proofs.Memory.Lookup
import Cabinet.Proofs.Play.Session
/-!
# How a schedule is delivered

The changes of a schedule stand in the order of their frames, and those for one frame in the order in
which they were given. There is one such order (`Schedule.inOrder_iff`), so what comes last in it is
known from the changes as they were given: it is the last of those for the greatest frame
(`InOrder.getLast?_filter_eq_some_iff`).

Asking for what is due at a frame takes the changes up to it out of the schedule, whichever frame was
asked for before (`Schedule.taken_and_pending_due`). After any questions there is left what is beyond all
of them (`Schedule.pending_after`), so what the next one takes out are the changes up to its frame that
are beyond those before it. Every change is delivered once: to the first question that reaches its frame,
or never (`Schedule.flatten_takings`). The answer is the last change that is taken out
(`Schedule.answers_eq_map`), and of several lists of changes for one frame the last list prevails
(`Schedule.answers_append`).
-/

namespace Cabinet

/-! ### The order of the changes -/

/-- The changes in the order of their frames, those for one frame in the order in which they were
given. -/
structure InOrder (events ordered : List InputEvent) : Prop where
  /-- They are the same changes. -/
  perm : ordered.Perm events
  /-- The frames ascend. -/
  sorted : ordered.Pairwise (·.frame ≤ ·.frame)
  /-- The changes for one frame have kept their order. -/
  stable : ∀ frame, ordered.filter (·.frame == frame) = events.filter (·.frame == frame)

section Order

variable {events ordered l l' : List InputEvent} {e : InputEvent}

theorem mem_iff_of_filter_frame
    (same : ∀ frame, l.filter (·.frame == frame) = l'.filter (·.frame == frame)) : e ∈ l ↔ e ∈ l' := by
  have here : e ∈ l.filter (·.frame == e.frame) ↔ e ∈ l'.filter (·.frame == e.frame) := by
    rw [same]
  simpa using here

/-- Changes in the order of their frames are known from those for each frame. -/
theorem eq_of_filter_frame (hl : l.Pairwise (·.frame ≤ ·.frame)) (hl' : l'.Pairwise (·.frame ≤ ·.frame))
    (same : ∀ frame, l.filter (·.frame == frame) = l'.filter (·.frame == frame)) : l = l' := by
  induction l generalizing l' with
  | nil =>
    cases l' with
    | nil => rfl
    | cons e' l' => exact absurd ((mem_iff_of_filter_frame same).2 List.mem_cons_self) List.not_mem_nil
  | cons e l ih =>
    cases l' with
    | nil => exact absurd ((mem_iff_of_filter_frame same).1 List.mem_cons_self) List.not_mem_nil
    | cons e' l' =>
      rw [List.pairwise_cons] at hl hl'
      -- Both first changes have the lowest frame.
      have below : e.frame ≤ e'.frame := by
        rcases List.mem_cons.1 ((mem_iff_of_filter_frame same).2 List.mem_cons_self) with rfl | h
        · exact UInt64.le_refl _
        · exact hl.1 _ h
      have above : e'.frame ≤ e.frame := by
        rcases List.mem_cons.1 ((mem_iff_of_filter_frame same).1 List.mem_cons_self) with rfl | h
        · exact UInt64.le_refl _
        · exact hl'.1 _ h
      have frame : e'.frame = e.frame := UInt64.le_antisymm above below
      have first : e = e' := by
        have here := same e.frame
        rw [List.filter_cons_of_pos (by simp), List.filter_cons_of_pos (by simp [frame])] at here
        exact (List.cons.inj here).1
      subst first
      congr 1
      apply ih hl.2 hl'.2
      intro f
      have here := same f
      rw [List.filter_cons, List.filter_cons] at here
      split at here
      · exact (List.cons.inj here).2
      · exact here

/-- There is one order. -/
theorem InOrder.unique (h : InOrder events l) (h' : InOrder events l') : l = l' := by
  apply eq_of_filter_frame h.sorted h'.sorted
  intro frame
  rw [h.stable, h'.stable]

/-- What is left out of the changes is left out of their order. -/
theorem InOrder.filter (h : InOrder events ordered) (p : InputEvent → Bool) :
    InOrder (events.filter p) (ordered.filter p) where
  perm := h.perm.filter p
  sorted := h.sorted.filter p
  stable frame := by
    have kept := congrArg (List.filter p) (h.stable frame)
    simpa only [List.filter_filter, Bool.and_comm] using kept

/-- **The last change** in the order is the last one given for the greatest frame. -/
theorem InOrder.getLast?_eq_some_iff (h : InOrder events ordered) : ordered.getLast? = some e ↔
    (∀ x ∈ events, x.frame ≤ e.frame) ∧
      (events.filter (·.frame == e.frame)).getLast? = some e := by
  have greatest : ∀ {e : InputEvent}, ordered.getLast? = some e → ∀ x ∈ events, x.frame ≤ e.frame := by
    intro e last x hx
    obtain ⟨before, rfl⟩ := List.getLast?_eq_some_iff.1 last
    have sorted := h.sorted
    rw [List.pairwise_append] at sorted
    rcases List.mem_append.1 (h.perm.mem_iff.2 hx) with hx | hx
    · exact sorted.2.2 x hx e (by simp)
    · rw [List.mem_singleton.1 hx]
      exact UInt64.le_refl _
  have latest : ∀ {e : InputEvent}, ordered.getLast? = some e →
      (events.filter (·.frame == e.frame)).getLast? = some e := by
    intro e last
    obtain ⟨before, rfl⟩ := List.getLast?_eq_some_iff.1 last
    rw [← h.stable, List.filter_append]
    simp
  constructor
  · intro last
    exact ⟨greatest last, latest last⟩
  · rintro ⟨top, last⟩
    have there : e ∈ events := (List.mem_filter.1 (List.mem_of_getLast? last)).1
    cases found : ordered.getLast? with
    | none =>
      rw [List.getLast?_eq_none_iff] at found
      rw [← h.perm.mem_iff, found] at there
      exact absurd there List.not_mem_nil
    | some e' =>
      have frame : e'.frame = e.frame :=
        UInt64.le_antisymm (top e' (h.perm.mem_iff.1 (List.mem_of_getLast? found)))
          (greatest found e there)
      have last' := latest found
      rw [frame, last] at last'
      exact last'.symm

/-- The last change in the order, of those for certain frames. -/
theorem InOrder.getLast?_filter_eq_some_iff (h : InOrder events ordered) (wanted : UInt64 → Bool) :
    (ordered.filter (wanted ·.frame)).getLast? = some e ↔
      wanted e.frame = true ∧ (∀ x ∈ events, wanted x.frame = true → x.frame ≤ e.frame) ∧
        (events.filter (·.frame == e.frame)).getLast? = some e := by
  have one : wanted e.frame = true →
      (events.filter (wanted ·.frame)).filter (·.frame == e.frame) =
        events.filter (·.frame == e.frame) := by
    intro he
    rw [List.filter_filter]
    apply List.filter_congr
    intro x hx
    by_cases frame : x.frame = e.frame
    · simp [frame, he]
    · simp [frame]
  rw [(h.filter _).getLast?_eq_some_iff]
  constructor
  · rintro ⟨top, last⟩
    have he : wanted e.frame = true := by
      have there := (List.mem_filter.1 (List.mem_of_getLast? last)).1
      exact (List.mem_filter.1 there).2
    rw [one he] at last
    refine ⟨he, ?_, last⟩
    intro x hx hw
    exact top x (List.mem_filter.2 ⟨hx, hw⟩)
  · rintro ⟨he, top, last⟩
    rw [one he]
    refine ⟨?_, last⟩
    intro x hx
    exact top x (List.mem_filter.1 hx).1 (List.mem_filter.1 hx).2

end Order

namespace Schedule

variable {s : Schedule} {queries : List UInt64}

/-- **A schedule keeps its changes in order.** -/
theorem inOrder_ofEvents (events : List InputEvent) : InOrder events (ofEvents events).pending := by
  have trans : ∀ x y z : InputEvent, decide (x.frame ≤ y.frame) = true →
      decide (y.frame ≤ z.frame) = true → decide (x.frame ≤ z.frame) = true := by
    intro x y z hxy hyz
    rw [decide_eq_true_eq] at *
    exact UInt64.le_trans hxy hyz
  have total : ∀ x y : InputEvent,
      (decide (x.frame ≤ y.frame) || decide (y.frame ≤ x.frame)) = true := by
    intro x y
    rw [Bool.or_eq_true, decide_eq_true_eq, decide_eq_true_eq]
    exact UInt64.le_total _ _
  have perm : (ofEvents events).pending.Perm events := List.mergeSort_perm ..
  refine ⟨perm, ?_, ?_⟩
  · exact (List.pairwise_mergeSort trans total events).imp of_decide_eq_true
  · intro frame
    -- The changes for one frame are sorted as they are given, so sorting leaves them a sublist.
    have given : (events.filter (·.frame == frame)).Pairwise
        fun x y => decide (x.frame ≤ y.frame) = true := by
      apply List.pairwise_of_forall_mem_list
      intro x hx y hy
      rw [List.mem_filter, beq_iff_eq] at hx hy
      rw [hx.2, hy.2, decide_eq_true_eq]
      exact UInt64.le_refl _
    have kept := (List.sublist_mergeSort trans total given List.filter_sublist).filter
      (·.frame == frame)
    rw [List.filter_filter] at kept
    simp only [Bool.and_self] at kept
    exact (kept.eq_of_length (perm.filter _).length_eq.symm).symm

theorem inOrder_iff {events l : List InputEvent} :
    InOrder events l ↔ l = (ofEvents events).pending := by
  constructor
  · intro h
    exact h.unique (inOrder_ofEvents events)
  · rintro rfl
    exact inOrder_ofEvents events

/-! ### One question -/

/-- A frame is beyond all that were asked for. -/
def Beyond (queries : List UInt64) (frame : UInt64) : Prop := ∀ q ∈ queries, q < frame

instance (queries : List UInt64) (frame : UInt64) : Decidable (Beyond queries frame) :=
  decidable_of_iff (queries.all fun q => decide (q < frame)) (by simp [Beyond])

theorem beyond_cons {q frame : UInt64} :
    Beyond (q :: queries) frame ↔ q < frame ∧ Beyond queries frame :=
  List.forall_mem_cons

variable {frame : UInt64}

/-- The changes that are due stand in front of the others. -/
theorem exists_due_append (sorted : s.pending.Pairwise (·.frame ≤ ·.frame)) (frame : UInt64) :
    ∃ due later, s.pending = due ++ later ∧ (∀ e ∈ due, e.frame ≤ frame) ∧
      ∀ e ∈ later, frame < e.frame := by
  obtain ⟨due, later, split, before, behind⟩ := exists_append_of_pairwise sorted
    (p := fun e => decide (e.frame ≤ frame)) fun x y le due =>
      decide_eq_true (UInt64.le_trans le (of_decide_eq_true due))
  refine ⟨due, later, split, ?_, ?_⟩
  · intro e he
    exact of_decide_eq_true (before e he)
  · intro e he
    exact UInt64.not_le.1 (of_decide_eq_false (behind e he))

/-- **A question takes out** the changes up to its frame, and leaves those beyond it. -/
theorem taken_and_pending_due (sorted : s.pending.Pairwise (·.frame ≤ ·.frame)) (frame : UInt64) :
    (s.taken frame = s.pending.filter fun e => e.frame ≤ frame) ∧
      (s.due frame).2.pending = s.pending.filter fun e => frame < e.frame := by
  obtain ⟨due, later, split, before, behind⟩ := exists_due_append sorted frame
  have first : later.takeWhile (fun e => decide (e.frame ≤ frame)) = [] := by
    cases later with
    | nil => rfl
    | cons e later => exact List.takeWhile_cons_of_neg (by simpa using behind e List.mem_cons_self)
  have taken : s.taken frame = due := by
    rw [Schedule.taken, split, List.takeWhile_append_of_pos (by simpa using before), first,
      List.append_nil]
  have left : (s.due frame).2.pending = later := by
    have whole := s.taken_append_due frame
    rw [taken, split] at whole
    exact List.append_cancel_left whole
  rw [taken, left, split, List.filter_append, List.filter_append]
  constructor
  · have passed : later.filter (fun e => decide (e.frame ≤ frame)) = [] := by
      simpa [UInt64.not_le] using behind
    rw [passed, List.append_nil, List.filter_eq_self.2 (by simpa using before)]
  · have passed : due.filter (fun e => decide (frame < e.frame)) = [] := by
      simpa [UInt64.not_lt] using before
    rw [passed, List.nil_append, List.filter_eq_self.2 (by simpa using behind)]

/-! ### Many questions -/

/-- The schedule after questions. -/
def after (s : Schedule) (queries : List UInt64) : Schedule :=
  queries.foldl (fun s frame => (s.due frame).2) s

/-- What the questions are answered with, one after the other. -/
def answers : Schedule → List UInt64 → List (Option UInt8)
  | _, [] => []
  | s, frame :: queries => (s.due frame).1 :: (s.due frame).2.answers queries

/-- What each of the questions takes out. -/
def takings : Schedule → List UInt64 → List (List InputEvent)
  | _, [] => []
  | s, frame :: queries => s.taken frame :: (s.due frame).2.takings queries

/-- The answer is the last of the changes that are taken out. -/
theorem answers_eq_map (s : Schedule) (queries : List UInt64) :
    s.answers queries = (s.takings queries).map fun taken => taken.getLast?.map (·.bits) := by
  induction queries generalizing s with
  | nil => rfl
  | cons frame queries ih => rw [answers, takings, List.map_cons, ih, bits_due]

/-- **Nothing is lost and nothing is given twice.** -/
theorem flatten_takings (s : Schedule) (queries : List UInt64) :
    (s.takings queries).flatten ++ (s.after queries).pending = s.pending := by
  induction queries generalizing s with
  | nil => rfl
  | cons frame queries ih =>
    rw [takings, List.flatten_cons, List.append_assoc]
    show s.taken frame ++ (((s.due frame).2.takings queries).flatten ++
      ((s.due frame).2.after queries).pending) = s.pending
    rw [ih, taken_append_due]

/-- **After any questions** there is left what is beyond all of them. -/
theorem pending_after (sorted : s.pending.Pairwise (·.frame ≤ ·.frame)) (queries : List UInt64) :
    (s.after queries).pending = s.pending.filter fun e => Beyond queries e.frame := by
  induction queries generalizing s with
  | nil => exact (List.filter_eq_self.2 (by simp [Beyond])).symm
  | cons frame queries ih =>
    have left := (taken_and_pending_due sorted frame).2
    show ((s.due frame).2.after queries).pending = _
    rw [ih, left, List.filter_filter]
    · apply List.filter_congr
      intro e _
      rw [Bool.eq_iff_iff]
      simp [beyond_cons, and_comm]
    · rw [left]
      exact sorted.filter _

theorem getElem?_takings (s : Schedule) (queries : List UInt64) (k : Nat) :
    (s.takings queries)[k]? = queries[k]?.map ((s.after (queries.take k)).taken ·) := by
  induction queries generalizing s k with
  | nil => simp [takings]
  | cons frame queries ih =>
    cases k with
    | zero => rfl
    | succ k =>
      rw [takings, List.getElem?_cons_succ, ih]
      rfl

/-- **Each question takes out what it reaches first**: the changes up to its frame that are beyond the
questions before it. -/
theorem getElem?_takings_eq_filter (sorted : s.pending.Pairwise (·.frame ≤ ·.frame))
    (queries : List UInt64) (k : Nat) : (s.takings queries)[k]? = queries[k]?.map fun q =>
      s.pending.filter fun e => e.frame ≤ q ∧ Beyond (queries.take k) e.frame := by
  rw [getElem?_takings]
  congr 1
  funext q
  have left := pending_after sorted (queries.take k)
  have sorted' : (s.after (queries.take k)).pending.Pairwise (·.frame ≤ ·.frame) := by
    rw [left]
    exact sorted.filter _
  rw [(taken_and_pending_due sorted' q).1, left, List.filter_filter]
  simp

/-! ### Changes given later -/

section Append

variable (events later : List InputEvent)

/-- The changes for whose frames there are none among those given later. -/
def unreplaced : List InputEvent := events.filter fun e => later.all fun x => x.frame != e.frame

/-- For each frame the same change comes last. -/
theorem getLast?_filter_unreplaced (frame : UInt64) :
    ((unreplaced events later ++ later).filter (·.frame == frame)).getLast? =
      ((events ++ later).filter (·.frame == frame)).getLast? := by
  rw [List.filter_append, List.filter_append, List.getLast?_append, List.getLast?_append]
  cases replaced : (later.filter (·.frame == frame)).getLast? with
  | some x => rfl
  | none =>
    have absent : ∀ x ∈ later, ¬x.frame = frame := by
      simpa using replaced
    rw [Option.none_or, Option.none_or, unreplaced, List.filter_filter]
    congr 1
    apply List.filter_congr
    intro e _
    by_cases here : e.frame = frame
    · simpa [here] using absent
    · simp [here]

/-- There are changes for the same frames. -/
theorem forall_frame_unreplaced (P : UInt64 → Prop) :
    (∀ x ∈ unreplaced events later ++ later, P x.frame) ↔ ∀ x ∈ events ++ later, P x.frame := by
  constructor
  · intro all x hx
    rcases List.mem_append.1 hx with hx | hx
    · by_cases replaced : ∃ y ∈ later, y.frame = x.frame
      · obtain ⟨y, hy, frame⟩ := replaced
        rw [← frame]
        exact all y (List.mem_append_right _ hy)
      · refine all x (List.mem_append_left _ (List.mem_filter.2 ⟨hx, ?_⟩))
        simpa using replaced
    · exact all x (List.mem_append_right _ hx)
  · intro all x hx
    rcases List.mem_append.1 hx with hx | hx
    · exact all x (List.mem_append_left _ (List.mem_filter.1 hx).1)
    · exact all x (List.mem_append_right _ hx)

/-- Of the changes for certain frames the same one comes last. -/
theorem getLast?_pending_append (wanted : UInt64 → Bool) :
    ((ofEvents (events ++ later)).pending.filter (wanted ·.frame)).getLast? =
      ((ofEvents (unreplaced events later ++ later)).pending.filter (wanted ·.frame)).getLast? := by
  apply Option.ext
  intro e
  rw [(inOrder_ofEvents _).getLast?_filter_eq_some_iff, (inOrder_ofEvents _).getLast?_filter_eq_some_iff,
    getLast?_filter_unreplaced,
    forall_frame_unreplaced events later fun frame => wanted frame = true → frame ≤ e.frame]

/-- **Later changes prevail.** What was given before for a frame for which there is a change among those
given later has no effect on any answer. -/
theorem answers_append (queries : List UInt64) :
    (ofEvents (events ++ later)).answers queries =
      (ofEvents (unreplaced events later ++ later)).answers queries := by
  apply List.ext_getElem?
  intro k
  rw [answers_eq_map, answers_eq_map, List.getElem?_map, List.getElem?_map,
    getElem?_takings_eq_filter (inOrder_ofEvents _).sorted,
    getElem?_takings_eq_filter (inOrder_ofEvents _).sorted, Option.map_map, Option.map_map]
  congr 1
  funext q
  exact congrArg (Option.map _) (getLast?_pending_append events later fun frame =>
    decide (frame ≤ q ∧ Beyond (queries.take k) frame))

end Append

/-! ### The delivery -/

/-- **Every change is delivered once, and the last one prevails.** The changes have one order. Whatever
frames are asked for, in any order and also repeatedly, each question takes out those changes that it is
the first to reach, and all that is taken out and what is left make up the changes again. A question is
answered with the last of the changes that it takes out, if there are any; and changes given later
prevail over those for the same frames. -/
theorem delivered_once (events : List InputEvent) :
    ∃ ordered, (∀ l, InOrder events l ↔ l = ordered) ∧ ∀ queries : List UInt64,
      ((ofEvents events).takings queries).flatten ++ ((ofEvents events).after queries).pending =
        ordered ∧
      (∀ k, ((ofEvents events).takings queries)[k]? = queries[k]?.map fun q =>
        ordered.filter fun e => e.frame ≤ q ∧ Beyond (queries.take k) e.frame) ∧
      (∀ k, ((ofEvents events).answers queries)[k]? = queries[k]?.map fun q =>
        (ordered.filter fun e =>
          e.frame ≤ q ∧ Beyond (queries.take k) e.frame).getLast?.map (·.bits)) ∧
      ∀ later, (ofEvents (events ++ later)).answers queries =
        (ofEvents (unreplaced events later ++ later)).answers queries := by
  have sorted := (inOrder_ofEvents events).sorted
  refine ⟨(ofEvents events).pending, fun l => inOrder_iff, ?_⟩
  intro queries
  refine ⟨flatten_takings .., getElem?_takings_eq_filter sorted queries, ?_, ?_⟩
  · intro k
    rw [answers_eq_map, List.getElem?_map, getElem?_takings_eq_filter sorted, Option.map_map]
    rfl
  · intro later
    exact answers_append events later queries

end Schedule

/-- Of the changes in a configuration those have no effect for whose frames the command line has some. -/
theorem Program.answers_schedule (o : Options) (c : Configuration) (queries : List UInt64) :
    (Program.schedule o c).answers queries =
      (Schedule.ofEvents (Schedule.unreplaced c.run.inputs o.inputs ++ o.inputs)).answers queries :=
  Schedule.answers_append ..

end Cabinet
