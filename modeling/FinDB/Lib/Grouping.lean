import Mathlib.Data.List.Perm.Basic
import Mathlib.Data.List.Dedup

/-! # Grouping under a key

A dictionary of lists filled by `setdefault(key, []).append(row)`. A key holds the rows that
carry it, and the rows under any set of keys are, up to order, the rows whose key is in it. -/
namespace FinDB.Lib

variable {α κ : Type} [DecidableEq κ]

/-- `d.setdefault(k, []).append(a)`. -/
def enter (k : κ) (a : α) : List (κ × List α) → List (κ × List α)
  | [] => [(k, [a])]
  | (k', as) :: rest => if k' = k then (k', as ++ [a]) :: rest else (k', as) :: enter k a rest

def group (key : α → κ) (xs : List α) : List (κ × List α) :=
  xs.foldl (fun groups a => enter (key a) a groups) []

/-- `d.get(k, [])`. -/
def rowsAt (groups : List (κ × List α)) (k : κ) : List α := (groups.lookup k).getD []

/-- `[row for k, rows in d.items() if p(k) for row in rows]`. -/
def rowsWhere (groups : List (κ × List α)) (p : κ → Bool) : List α :=
  (groups.filter fun g => p g.1).flatMap (·.2)

theorem rowsAt_nil (k : κ) : rowsAt ([] : List (κ × List α)) k = [] := rfl

theorem rowsAt_cons (k j : κ) (as : List α) (rest : List (κ × List α)) :
    rowsAt ((j, as) :: rest) k = if k = j then as else rowsAt rest k := by
  by_cases h : k = j
  · simp [rowsAt, h]
  · simp [rowsAt, List.lookup_cons, beq_eq_false_iff_ne.mpr h, h]

theorem rowsAt_enter (k k' : κ) (a : α) :
    ∀ groups : List (κ × List α),
      rowsAt (enter k a groups) k' = if k' = k then rowsAt groups k' ++ [a] else rowsAt groups k'
  | [] => by simp only [enter, rowsAt_cons, rowsAt_nil, List.nil_append]
  | (j, as) :: rest => by
    have ih := rowsAt_enter k k' a rest
    unfold enter
    split
    · rename_i hj
      subst hj
      by_cases h : k' = j <;> simp [rowsAt_cons, h]
    · rename_i hj
      by_cases h : k' = j
      · subst h
        simp [rowsAt_cons, hj]
      · simp [rowsAt_cons, h, ih]

theorem rowsAt_foldl (key : α → κ) (k : κ) :
    ∀ (xs : List α) (groups : List (κ × List α)),
      rowsAt (xs.foldl (fun groups a => enter (key a) a groups) groups) k =
        rowsAt groups k ++ xs.filter fun a => decide (key a = k)
  | [], groups => by simp
  | x :: xs, groups => by
    rw [List.foldl_cons, rowsAt_foldl key k xs, rowsAt_enter]
    by_cases h : k = key x
    · simp [h]
    · have h' : ¬ key x = k := fun e => h e.symm
      simp [h, h']

/-- A key holds the rows that carry it, in their order. -/
theorem rowsAt_group (key : α → κ) (xs : List α) (k : κ) :
    rowsAt (group key xs) k = xs.filter fun a => decide (key a = k) := by
  have h := rowsAt_foldl key k xs []
  rwa [rowsAt_nil, List.nil_append] at h

theorem rowsWhere_enter (k : κ) (a : α) (p : κ → Bool) :
    ∀ groups : List (κ × List α),
      (rowsWhere (enter k a groups) p).Perm
        (rowsWhere groups p ++ if p k then [a] else [])
  | [] => by by_cases h : p k <;> simp [enter, rowsWhere, h]
  | (j, as) :: rest => by
    have ih := rowsWhere_enter k a p rest
    unfold enter
    split
    · rename_i hj
      subst hj
      by_cases h : p j
      · have hswap : ([a] ++ rowsWhere rest p).Perm (rowsWhere rest p ++ [a]) :=
          List.perm_append_comm
        simpa [rowsWhere, h] using hswap.append_left as
      · simp [rowsWhere, h]
    · by_cases h : p j
      · simpa [rowsWhere, h] using ih.append_left as
      · simpa [rowsWhere, h] using ih

theorem rowsWhere_foldl (key : α → κ) (p : κ → Bool) :
    ∀ (xs : List α) (groups : List (κ × List α)),
      (rowsWhere (xs.foldl (fun groups a => enter (key a) a groups) groups) p).Perm
        (rowsWhere groups p ++ xs.filter fun a => p (key a))
  | [], groups => by simp
  | x :: xs, groups => by
    rw [List.foldl_cons]
    refine (rowsWhere_foldl key p xs _).trans ?_
    refine ((rowsWhere_enter (key x) x p groups).append_right _).trans ?_
    by_cases h : p (key x) <;> simp [h]

/-- The rows under the keys of a set are the rows whose key is in it. -/
theorem rowsWhere_group (key : α → κ) (xs : List α) (p : κ → Bool) :
    (rowsWhere (group key xs) p).Perm (xs.filter fun a => p (key a)) := by
  have h := rowsWhere_foldl key p xs []
  rwa [show rowsWhere ([] : List (κ × List α)) p = [] from rfl, List.nil_append] at h

theorem mem_keys_enter (k k' : κ) (a : α) :
    ∀ groups : List (κ × List α),
      k' ∈ (enter k a groups).map Prod.fst ↔ k' = k ∨ k' ∈ groups.map Prod.fst
  | [] => by simp [enter]
  | (j, as) :: rest => by
    have ih := mem_keys_enter k k' a rest
    unfold enter
    split
    · rename_i hj
      subst hj
      simp
    · simp only [List.map_cons, List.mem_cons, ih]
      exact or_left_comm

theorem mem_keys_foldl (key : α → κ) (k : κ) :
    ∀ (xs : List α) (groups : List (κ × List α)),
      k ∈ (xs.foldl (fun groups a => enter (key a) a groups) groups).map Prod.fst ↔
        k ∈ groups.map Prod.fst ∨ ∃ a ∈ xs, key a = k
  | [], groups => by simp
  | x :: xs, groups => by
    rw [List.foldl_cons, mem_keys_foldl key k xs, mem_keys_enter]
    simp only [List.mem_cons, exists_eq_or_imp]
    constructor
    · rintro ((h | h) | h)
      · exact Or.inr (Or.inl h.symm)
      · exact Or.inl h
      · exact Or.inr (Or.inr h)
    · rintro (h | h | h)
      · exact Or.inl (Or.inr h)
      · exact Or.inl (Or.inl h.symm)
      · exact Or.inr h

/-- The keys are those of the rows. -/
theorem mem_keys_group (key : α → κ) (xs : List α) (k : κ) :
    k ∈ (group key xs).map Prod.fst ↔ ∃ a ∈ xs, key a = k := by
  have h := mem_keys_foldl key k xs []
  rwa [List.map_nil, List.mem_nil_iff, false_or] at h

/-- The only element of a list that has one. -/
def sole : List α → Option α
  | [a] => some a
  | _ => none

@[simp] theorem sole_eq_some {xs : List α} {a : α} : sole xs = some a ↔ xs = [a] := by
  match xs with
  | [] => simp [sole]
  | [b] => simp [sole]
  | b :: c :: rest => simp [sole]

theorem sole_perm {xs ys : List α} (h : xs.Perm ys) : sole xs = sole ys := by
  refine Option.ext fun a => ?_
  rw [sole_eq_some, sole_eq_some]
  constructor
  · rintro rfl
    exact (List.singleton_perm.mp h).symm
  · rintro rfl
    exact List.perm_singleton.mp h

end FinDB.Lib
