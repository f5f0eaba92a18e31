import Mathlib.Data.List.MinMax
import Mathlib.Data.Prod.Lex
import Mathlib.Order.WithBot

/-! # Cells that keep the best write

A cell is overwritten by what ranks at least as high as its content. Its rank is
then the maximum of what was there and what came, whatever the order; with
distinct ranks the content is too. -/
namespace FinDB.Lib

section
variable {α β : Type} (rank : α → β)

/-- The rank of a cell; an empty one ranks below every write. -/
def cellRank (cell : Option α) : WithBot β := cell.map rank

@[simp] theorem cellRank_none : cellRank rank (none : Option α) = ⊥ := rfl

@[simp] theorem cellRank_some (a : α) : cellRank rank (some a) = (rank a : WithBot β) := rfl

variable [LinearOrder β]

/-- One guarded write. -/
def keepBest (cell : Option α) (w : α) : Option α :=
  match cell with
  | none => some w
  | some s => if rank s ≤ rank w then some w else some s

variable {rank} {cell : Option α} {w : α} {ws : List α}

theorem keepBest_of_le (h : cellRank rank cell ≤ rank w) : keepBest rank cell w = some w := by
  cases cell with
  | none => rfl
  | some s => exact if_pos (WithBot.coe_le_coe.mp h)

theorem keepBest_of_lt (h : (rank w : WithBot β) < cellRank rank cell) :
    keepBest rank cell w = cell := by
  cases cell with
  | none => exact absurd h (not_lt_bot)
  | some s => exact if_neg (not_le.mpr (WithBot.coe_lt_coe.mp h))

theorem cellRank_keepBest :
    cellRank rank (keepBest rank cell w) = max (cellRank rank cell) (rank w) := by
  rcases le_or_gt (cellRank rank cell) (rank w) with h | h
  · rw [keepBest_of_le h, max_eq_right h, cellRank_some]
  · rw [keepBest_of_lt h, max_eq_left h.le]

/-- The rank of a cell only grows. -/
theorem cellRank_le_foldl : cellRank rank cell ≤ cellRank rank (ws.foldl (keepBest rank) cell) := by
  induction ws generalizing cell with
  | nil => exact le_rfl
  | cons v rest ih =>
    refine le_trans ?_ ih
    rw [cellRank_keepBest]
    exact le_max_left _ _

theorem cellRank_foldl_le {b : WithBot β} (hcell : cellRank rank cell ≤ b)
    (h : ∀ v ∈ ws, (rank v : WithBot β) ≤ b) :
    cellRank rank (ws.foldl (keepBest rank) cell) ≤ b := by
  induction ws generalizing cell with
  | nil => exact hcell
  | cons v rest ih =>
    refine ih ?_ fun u hu => h u (List.mem_cons_of_mem _ hu)
    rw [cellRank_keepBest]
    exact max_le hcell (h v List.mem_cons_self)

/-- Writes below the content change nothing. -/
theorem foldl_keepBest_of_lt (h : ∀ v ∈ ws, (rank v : WithBot β) < cellRank rank cell) :
    ws.foldl (keepBest rank) cell = cell := by
  induction ws with
  | nil => rfl
  | cons v rest ih =>
    rw [List.foldl_cons, keepBest_of_lt (h v List.mem_cons_self)]
    exact ih fun u hu => h u (List.mem_cons_of_mem _ hu)

/-- The best of several writes stays, wherever it stands among them, unless the cell
held something better. -/
theorem foldl_keepBest_best (hw : w ∈ ws) (hbest : ∀ v ∈ ws, rank v ≤ rank w)
    (hdistinct : ws.Pairwise fun a b => rank a ≠ rank b) (hcell : cellRank rank cell ≤ rank w) :
    ws.foldl (keepBest rank) cell = some w := by
  obtain ⟨pre, post, rfl⟩ := List.append_of_mem hw
  have hpost : ∀ v ∈ post, rank v < rank w := by
    intro v hv
    have hne : rank w ≠ rank v :=
      (List.pairwise_cons.mp (List.pairwise_append.mp hdistinct).2.1).1 v hv
    exact lt_of_le_of_ne (hbest v (by simp [hv])) hne.symm
  have hpre : cellRank rank (pre.foldl (keepBest rank) cell) ≤ rank w :=
    cellRank_foldl_le hcell fun v hv => WithBot.coe_le_coe.mpr (hbest v (by simp [hv]))
  rw [List.foldl_append, List.foldl_cons, keepBest_of_le hpre]
  exact foldl_keepBest_of_lt fun v hv => WithBot.coe_lt_coe.mpr (hpost v hv)

theorem exists_best (hne : ws ≠ []) : ∃ w ∈ ws, ∀ v ∈ ws, rank v ≤ rank w := by
  cases hmax : ws.argmax rank with
  | none => exact absurd (List.argmax_eq_none.mp hmax) hne
  | some w => exact ⟨w, List.argmax_mem hmax, fun v hv => List.le_of_mem_argmax hv hmax⟩

/-- **Order does not matter.** -/
theorem foldl_keepBest_perm {ws' : List α} (hperm : ws.Perm ws')
    (hdistinct : ws.Pairwise fun a b => rank a ≠ rank b) :
    ws'.foldl (keepBest rank) cell = ws.foldl (keepBest rank) cell := by
  by_cases hne : ws = []
  · rw [hne] at hperm ⊢
    rw [List.nil_perm.mp hperm]
  · have hmax : ∃ w ∈ ws, ∀ v ∈ ws, rank v ≤ rank w := exists_best hne
    obtain ⟨w, hw, hbest⟩ := hmax
    have hbest' : ∀ v ∈ ws', rank v ≤ rank w := fun v hv => hbest v (hperm.mem_iff.mpr hv)
    rcases le_or_gt (cellRank rank cell) (rank w) with h | h
    · have hdistinct' : ws'.Pairwise fun a b => rank a ≠ rank b :=
        hdistinct.perm hperm fun hab => Ne.symm hab
      rw [foldl_keepBest_best hw hbest hdistinct h,
        foldl_keepBest_best (hperm.mem_iff.mp hw) hbest' hdistinct' h]
    · rw [foldl_keepBest_of_lt fun v hv => (WithBot.coe_le_coe.mpr (hbest v hv)).trans_lt h,
        foldl_keepBest_of_lt fun v hv => (WithBot.coe_le_coe.mpr (hbest' v hv)).trans_lt h]

end

end FinDB.Lib
