import Mathlib.Data.List.Forall2
/-!
# When a computation with failures succeeds

A chain of steps that may fail succeeds exactly if every step does, and a guard that throws is passed
exactly if its condition is false. With these equivalences the success of a program written with `do`
unfolds to the conjunction of what it checks. The same step for every item of a list succeeds if it does
for each of them, and fails as it does for the first for which it fails. Of a computation that is known
to succeed the result can be named (`resultOf`).
-/

namespace Cabinet

variable {ε α β : Type}

theorem bind_eq_ok_iff {x : Except ε α} {f : α → Except ε β} {r : β} :
    x >>= f = .ok r ↔ ∃ a, x = .ok a ∧ f a = .ok r := by
  cases x with
  | error e => simp [bind, Except.bind]
  | ok a => simp [bind, Except.bind]

theorem bind_eq_error_iff {x : Except ε α} {f : α → Except ε β} {e : ε} :
    x >>= f = .error e ↔ x = .error e ∨ ∃ a, x = .ok a ∧ f a = .error e := by
  cases x with
  | error e' => simp [bind, Except.bind]
  | ok a => simp [bind, Except.bind]

theorem exists_error_iff {x : Except ε α} : (∃ e, x = .error e) ↔ ∀ a, x ≠ .ok a := by
  cases x with
  | error e => simp
  | ok a => simp

theorem map_eq_ok_iff {x : Except ε α} {f : α → β} {r : β} :
    f <$> x = .ok r ↔ ∃ a, x = .ok a ∧ f a = r := by
  cases x with
  | error e => simp [Functor.map, Except.map]
  | ok a => simp [Functor.map, Except.map]

theorem ite_throw_eq_ok_iff {p : Prop} [Decidable p] {e : ε} {f : α → Except ε β} {x : Except ε β}
    {r : β} : (if p then throw e >>= f else x) = .ok r ↔ ¬p ∧ x = .ok r := by
  by_cases hp : p
  · simp [hp, throw, throwThe, MonadExceptOf.throw, bind, Except.bind]
  · simp [hp]

theorem mapError_eq_ok_iff {ε' : Type} {g : ε → ε'} {x : Except ε α} {r : α} :
    x.mapError g = .ok r ↔ x = .ok r := by
  cases x with
  | error e =>
    show Except.error (g e) = Except.ok r ↔ Except.error e = Except.ok r
    constructor <;> intro h <;> cases h
  | ok a =>
    show Except.ok a = Except.ok r ↔ Except.ok a = Except.ok r
    constructor <;> intro h <;> cases h <;> rfl

theorem mapM_eq_ok_iff {f : α → Except ε β} {xs : List α} {ys : List β} :
    xs.mapM f = .ok ys ↔ List.Forall₂ (fun x y => f x = .ok y) xs ys := by
  induction xs generalizing ys with
  | nil =>
    rw [List.forall₂_nil_left_iff]
    show Except.ok [] = Except.ok ys ↔ ys = []
    rw [Except.ok.injEq, eq_comm]
  | cons x xs ih =>
    rw [List.mapM_cons, List.forall₂_cons_left_iff]
    simp only [bind_eq_ok_iff, ih]
    constructor
    · rintro ⟨y, hy, ys', hys, h⟩
      exact ⟨y, ys', hy, hys, (Except.ok.inj h).symm⟩
    · rintro ⟨y, ys', hy, hys, rfl⟩
      exact ⟨y, hy, ys', hys, rfl⟩

/-- Why a computation fails, if it does. -/
def faultOf : Except ε α → Option ε
  | .error e => some e
  | .ok _ => none

theorem faultOf_eq_some_iff {x : Except ε α} {e : ε} : faultOf x = some e ↔ x = .error e := by
  cases x with
  | error e' => rw [faultOf, Option.some.injEq, Except.error.injEq]
  | ok a => exact iff_of_false (by simp [faultOf]) (by simp)

theorem faultOf_eq_none_iff {x : Except ε α} : faultOf x = none ↔ ∃ a, x = .ok a := by
  cases x with
  | error e => exact iff_of_false (by simp [faultOf]) (by simp)
  | ok a => exact iff_of_true rfl ⟨a, rfl⟩

theorem faultOf_mapM (f : α → Except ε β) (xs : List α) :
    faultOf (xs.mapM f) = xs.findSome? fun x => faultOf (f x) := by
  induction xs with
  | nil => rfl
  | cons x xs ih =>
    rw [List.mapM_cons, List.findSome?_cons]
    cases f x with
    | error e => rfl
    | ok y =>
      rw [faultOf, ← ih]
      show faultOf (xs.mapM f >>= fun ys => pure (y :: ys)) = _
      cases xs.mapM f with
      | error e => rfl
      | ok ys => rfl

theorem exists_mapM_eq_ok_iff {f : α → Except ε β} {xs : List α} :
    (∃ ys, xs.mapM f = .ok ys) ↔ ∀ x ∈ xs, ∃ y, f x = .ok y := by
  simp only [← faultOf_eq_none_iff, faultOf_mapM, List.findSome?_eq_none_iff]

theorem mapM_eq_error_iff {f : α → Except ε β} {xs : List α} {e : ε} :
    xs.mapM f = .error e ↔ ∃ front bad back, xs = front ++ bad :: back ∧ f bad = .error e ∧
      ∀ x ∈ front, ∃ y, f x = .ok y := by
  rw [← faultOf_eq_some_iff, faultOf_mapM, List.findSome?_eq_some_iff]
  simp only [faultOf_eq_some_iff, faultOf_eq_none_iff]

/-- The result of a computation that succeeds. -/
def resultOf {x : Except ε α} (h : ∃ a, x = .ok a) : α :=
  match x with
  | .ok a => a
  | .error _ => False.elim <| by obtain ⟨a, h⟩ := h; cases h

theorem eq_ok_resultOf {x : Except ε α} (h : ∃ a, x = .ok a) : x = .ok (resultOf h) := by
  obtain ⟨a, rfl⟩ := h
  rfl

end Cabinet
