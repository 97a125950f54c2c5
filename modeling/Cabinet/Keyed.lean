/-!
# Values under keys

A list of values under keys in which a key stands once: putting a value under a key that is there
replaces the value in its place, otherwise the key comes last.
-/

namespace Cabinet.Keyed

variable {α : Type}

/-- Puts a value under a key. -/
def insert (key : String) (value : α) : List (String × α) → List (String × α)
  | [] => [(key, value)]
  | (k, old) :: rest =>
    if k = key then (key, value) :: rest else (k, old) :: insert key value rest

/-- The values under their keys; of two with one key the later counts. -/
def ofList (items : List (String × α)) : List (String × α) :=
  items.foldl (fun es (k, v) => insert k v es) []

theorem lookup_cons_eq_ite (key other : String) (value : α) (items : List (String × α)) :
    ((key, value) :: items).lookup other = if other = key then some value else items.lookup other := by
  by_cases h : other = key
  · simp [h]
  · simp [List.lookup_cons, beq_false_of_ne h, h]

/-- After putting a value under a key, the key finds it, and every other key finds what it found
before. -/
theorem lookup_insert (key other : String) (value : α) (items : List (String × α)) :
    (insert key value items).lookup other =
      if other = key then some value else items.lookup other := by
  induction items with
  | nil => simp [insert, lookup_cons_eq_ite]
  | cons item rest ih =>
    obtain ⟨k, old⟩ := item
    simp only [insert, apply_ite (List.lookup other), lookup_cons_eq_ite, ih]
    grind

/-- A key finds its value if no other value stands under it. -/
theorem lookup_eq_some_of_mem {key : String} {value : α} {items : List (String × α)}
    (mem : (key, value) ∈ items) (only : ∀ x ∈ items, x.1 = key → x.2 = value) :
    items.lookup key = some value := by
  induction items with
  | nil => exact absurd mem List.not_mem_nil
  | cons item items ih =>
    rw [lookup_cons_eq_ite]
    by_cases h : key = item.1
    · rw [if_pos h, only item (List.mem_cons_self ..) h.symm]
    · rw [if_neg h]
      obtain rfl | mem := List.mem_cons.1 mem
      · exact absurd rfl h
      · exact ih mem fun x hx => only x (List.mem_cons_of_mem _ hx)

/-- A key finds the last of the values that are put under it. -/
theorem lookup_ofList (key : String) (items : List (String × α)) :
    (ofList items).lookup key = items.reverse.lookup key := by
  have all (start : List (String × α)) :
      (items.foldl (fun es (k, v) => insert k v es) start).lookup key =
        (items.reverse.lookup key).or (start.lookup key) := by
    induction items generalizing start with
    | nil => rfl
    | cons item items ih =>
      rw [List.foldl_cons, ih, lookup_insert, List.reverse_cons, List.lookup_append, Option.or_assoc,
        lookup_cons_eq_ite]
      congr 1
      split <;> rfl
  rw [ofList, all, List.lookup_nil, Option.or_none]

end Cabinet.Keyed
