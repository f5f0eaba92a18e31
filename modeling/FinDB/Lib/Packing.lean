import Mathlib.Data.List.Basic

/-! # Greedy packing

A list is cut into chunks from left to right: a chunk is closed when the next item no longer
fits. When the pieces of a list that fits fit too, no other cut into fitting chunks has
fewer of them. -/
namespace FinDB.Lib

variable {α : Type} (fits : List α → Prop) [DecidablePred fits]

/-- The chunks of a list behind an open chunk. -/
def pack : List α → List α → List (List α)
  | chunk, [] => if chunk.isEmpty then [] else [chunk]
  | chunk, x :: xs =>
    if chunk ≠ [] ∧ ¬ fits (chunk ++ [x]) then chunk :: pack [x] xs else pack (chunk ++ [x]) xs

/-- The pieces of a list that fits fit. -/
structure Hereditary : Prop where
  left : ∀ a b, fits (a ++ b) → fits a
  right : ∀ a b, fits (a ++ b) → fits b

variable {fits}

theorem flatten_pack (chunk xs : List α) : (pack fits chunk xs).flatten = chunk ++ xs := by
  induction xs generalizing chunk with
  | nil =>
    unfold pack
    split
    · rename_i hempty
      rw [List.isEmpty_iff.mp hempty]
      rfl
    · rw [List.flatten_singleton, List.append_nil]
  | cons x xs ih =>
    unfold pack
    split
    · rw [List.flatten_cons, ih]
      rfl
    · rw [ih, List.append_assoc]
      rfl

/-- Where each item fits alone, each chunk fits. -/
theorem fits_of_mem_pack {chunk xs c : List α} (hsingle : ∀ x ∈ xs, fits [x])
    (hopen : chunk = [] ∨ fits chunk) (hc : c ∈ pack fits chunk xs) : c ≠ [] ∧ fits c := by
  induction xs generalizing chunk with
  | nil =>
    unfold pack at hc
    split at hc
    · cases hc
    · rename_i hne
      have hne' : chunk ≠ [] := fun h => hne (List.isEmpty_iff.mpr h)
      cases List.mem_singleton.mp hc
      exact ⟨hne', hopen.resolve_left hne'⟩
  | cons x xs ih =>
    obtain ⟨hx, hxs⟩ := List.forall_mem_cons.mp hsingle
    unfold pack at hc
    split at hc
    · rename_i hclosed
      rcases List.mem_cons.mp hc with rfl | hc
      · exact ⟨hclosed.1, hopen.resolve_left hclosed.1⟩
      · exact ih hxs (.inr hx) hc
    · rename_i hkept
      refine ih hxs (.inr ?_) hc
      by_cases hempty : chunk = []
      · rw [hempty]
        exact hx
      · by_contra hnot
        exact hkept ⟨hempty, hnot⟩

/-- Starting with less in the open chunk saves chunks, and one at most. -/
theorem length_pack_append (h : Hereditary fits) (a c xs : List α) :
    (pack fits c xs).length ≤ (pack fits (a ++ c) xs).length ∧
      (pack fits (a ++ c) xs).length ≤ (pack fits c xs).length + 1 := by
  induction xs generalizing a c with
  | nil =>
    unfold pack
    cases a <;> cases c <;> simp
  | cons x xs ih =>
    by_cases hs : fits (a ++ c ++ [x])
    · -- both chunks take the item
      have hc : fits (c ++ [x]) := h.right a _ (List.append_assoc a c [x] ▸ hs)
      have hnext := ih a (c ++ [x])
      rw [← List.append_assoc] at hnext
      simpa only [pack, hs, hc, not_true, and_false, if_false] using hnext
    · by_cases hempty : a ++ c = []
      · obtain ⟨rfl, rfl⟩ := List.append_eq_nil_iff.mp hempty
        exact ⟨Nat.le_refl _, Nat.le_succ _⟩
      · have hlong : pack fits (a ++ c) (x :: xs) = (a ++ c) :: pack fits [x] xs := by
          simp only [pack, ne_eq, hempty, hs, not_false_eq_true, and_self, if_true]
        rw [hlong, List.length_cons]
        by_cases hc : c ≠ [] ∧ ¬ fits (c ++ [x])
        · -- both chunks are closed here
          have hshort : pack fits c (x :: xs) = c :: pack fits [x] xs := by
            simp only [pack, if_pos hc]
          rw [hshort, List.length_cons]
          exact ⟨Nat.le_refl _, Nat.le_succ _⟩
        · have hshort : pack fits c (x :: xs) = pack fits (c ++ [x]) xs := by
            simp only [pack, if_neg hc]
          obtain ⟨hle, hle'⟩ := ih c [x]
          rw [hshort]
          exact ⟨hle', Nat.succ_le_succ hle⟩

/-- A piece that fits the open chunk is taken whole. -/
theorem pack_append (h : Hereditary fits) {chunk piece : List α} (hfits : fits (chunk ++ piece))
    (xs : List α) : pack fits chunk (piece ++ xs) = pack fits (chunk ++ piece) xs := by
  induction piece generalizing chunk with
  | nil => rw [List.append_nil, List.nil_append]
  | cons x piece ih =>
    have hsplit : chunk ++ x :: piece = (chunk ++ [x]) ++ piece := by
      rw [List.append_assoc, List.singleton_append]
    rw [hsplit] at hfits
    rw [hsplit, ← ih hfits, List.cons_append, pack, if_neg]
    exact fun hclosed => hclosed.2 (h.left _ _ hfits)

/-- No cut of a list into chunks that fit is shorter. -/
theorem length_pack_le (h : Hereditary fits) {parts : List (List α)}
    (hfits : ∀ part ∈ parts, fits part) :
    (pack fits [] parts.flatten).length ≤ parts.length := by
  induction parts with
  | nil => exact Nat.le_refl 0
  | cons part parts ih =>
    obtain ⟨hpart, hparts⟩ := List.forall_mem_cons.mp hfits
    have htaken := @pack_append _ fits _ h [] _ hpart parts.flatten
    have hopen := (length_pack_append h part [] parts.flatten).2
    rw [List.nil_append] at htaken
    rw [List.append_nil] at hopen
    rw [List.flatten_cons, htaken, List.length_cons]
    exact Nat.le_trans hopen (Nat.succ_le_succ (ih hparts))

end FinDB.Lib
