import Mathlib.Data.List.Sort

/-! # Rows by falling key

A list in falling order of a key is searched from the front: the first row that passes is
the latest, and a prefix of it holds all rows above some bound. -/
namespace FinDB.Lib

section
variable {ρ : Type} {key : ρ → Int} {rows : List ρ}

/-- Each key is above those that follow. -/
def Descending (key : ρ → Int) (rows : List ρ) : Prop := rows.Pairwise fun a b => key b < key a

/-- `rows.sort(key=key, reverse=True)`. -/
def sortDescending (key : ρ → Int) (rows : List ρ) : List ρ :=
  rows.insertionSort fun a b => key b ≤ key a

theorem sortDescending_perm : (sortDescending key rows).Perm rows := List.perm_insertionSort _ _

theorem mem_sortDescending {r : ρ} : r ∈ sortDescending key rows ↔ r ∈ rows :=
  sortDescending_perm.mem_iff

theorem length_sortDescending : (sortDescending key rows).length = rows.length :=
  sortDescending_perm.length_eq

/-- Rows with different keys end up in falling order. -/
theorem descending_sortDescending (h : (rows.map key).Nodup) :
    Descending key (sortDescending key rows) := by
  have hsorted : (sortDescending key rows).Pairwise fun a b => key b ≤ key a := by
    have : Std.Total fun a b : ρ => key b ≤ key a := ⟨fun a b => le_total _ _⟩
    have : IsTrans ρ fun a b => key b ≤ key a := ⟨fun a b c hab hbc => hbc.trans hab⟩
    exact List.pairwise_insertionSort _ _
  have hne : (sortDescending key rows).Pairwise fun a b => key a ≠ key b := by
    have hperm : (sortDescending key rows).Perm rows := sortDescending_perm
    exact List.pairwise_map.mp ((hperm.map key).nodup_iff.mpr h)
  exact hsorted.imp₂ (fun a b hle hne => lt_of_le_of_ne hle (Ne.symm hne)) hne

/-- The first row of a prefix that passes is above every other one that does. -/
theorem Descending.find?_take (h : Descending key rows) {p : ρ → Bool} {n : Nat} {r : ρ}
    (hr : (rows.take n).find? p = some r) :
    r ∈ rows ∧ p r = true ∧ ∀ q ∈ rows, key r < key q → p q = false := by
  obtain ⟨hp, before, after, hsplit, hbefore⟩ := List.find?_eq_some_iff_append.mp hr
  have hrows : rows = before ++ r :: (after ++ rows.drop n) := by
    rw [← List.cons_append, ← List.append_assoc, ← hsplit, List.take_append_drop]
  refine ⟨by rw [hrows]; simp, hp, fun q hq hlt => ?_⟩
  unfold Descending at h
  rw [hrows] at hq h
  rcases List.mem_append.mp hq with hq | hq
  · simpa using hbefore q hq
  · have hle : key q ≤ key r := by
      rcases List.mem_cons.mp hq with rfl | hq
      · exact le_rfl
      · exact (List.rel_of_pairwise_cons (List.pairwise_append.mp h).2.1 hq).le
    omega

/-- Below a bound the keys fall by one at least. -/
theorem Descending.key_le (h : Descending key rows) {top : Int} (htop : ∀ r ∈ rows, key r ≤ top) :
    ∀ i (hi : i < rows.length), key rows[i] ≤ top - i := by
  intro i
  induction i with
  | zero =>
    intro hi
    simpa using htop _ (List.getElem_mem hi)
  | succ i ih =>
    intro hi
    have hprev := ih (by omega)
    have hlt := List.pairwise_iff_getElem.mp h i (i + 1) (by omega) hi (by omega)
    omega

/-- A row close to the bound is in the prefix. -/
theorem Descending.mem_take (h : Descending key rows) {top : Int} (htop : ∀ r ∈ rows, key r ≤ top)
    {n : Nat} {r : ρ} (hr : r ∈ rows) (hkey : top - n < key r) : r ∈ rows.take n := by
  obtain ⟨i, hi, rfl⟩ := List.getElem_of_mem hr
  have hle := h.key_le htop i hi
  have hin : i < n := by omega
  exact List.mem_take_iff_getElem.mpr ⟨i, by omega, rfl⟩

/-- Everything outside a falling list that lies below it lies far below the bound. -/
theorem Descending.below (h : Descending key rows) {top : Int} (htop : ∀ r ∈ rows, key r ≤ top)
    {k : Int} (hktop : k ≤ top) (hk : ∀ r ∈ rows, k < key r) : k ≤ top - rows.length := by
  by_cases hempty : rows = []
  · simpa [hempty] using hktop
  · have hlen : 0 < rows.length := List.length_pos_iff.mpr hempty
    have hlast := h.key_le htop (rows.length - 1) (by omega)
    have hbelow := hk _ (List.getElem_mem (show rows.length - 1 < rows.length by omega))
    omega

end
end FinDB.Lib
