import Mathlib.Order.Lattice
import Mathlib.Order.Basic
import Mathlib.Data.List.Basic
import Mathlib.Data.List.Induction

/-! # Decisions made in order

Keys are decided one after the other, and what was accepted below a key may change
its verdict. A preview decides every key as if nothing had been accepted. -/
namespace FinDB.Lib

/-! ## The sweep -/

section
variable {κ : Type} [BEq κ]

/-- The keys accepted after `accepted`, in order. -/
def sweep (verdict : (κ → Bool) → κ → Bool) (accepted : List κ) : List κ → List κ
  | [] => accepted
  | k :: ks =>
    sweep verdict (if verdict (accepted.contains ·) k then accepted ++ [k] else accepted) ks

/-- The keys a preview accepts. -/
def previewed (verdict : (κ → Bool) → κ → Bool) (ks : List κ) (k : κ) : Bool :=
  ks.contains k && verdict (fun _ => false) k

variable {verdict : (κ → Bool) → κ → Bool} {accepted ks : List κ} {k : κ}

theorem mem_sweep_of_mem (h : k ∈ accepted) : k ∈ sweep verdict accepted ks := by
  induction ks generalizing accepted with
  | nil => exact h
  | cons j ks ih =>
    refine ih ?_
    split
    · exact List.mem_append_left _ h
    · exact h

theorem mem_of_mem_sweep (h : k ∈ sweep verdict accepted ks) : k ∈ accepted ∨ k ∈ ks := by
  induction ks generalizing accepted with
  | nil => exact Or.inl h
  | cons j ks ih =>
    rcases ih h with hin | hin
    · split at hin
      · rcases List.mem_append.mp hin with hin | hin
        · exact Or.inl hin
        · exact Or.inr (List.mem_singleton.mp hin ▸ List.mem_cons_self)
      · exact Or.inl hin
    · exact Or.inr (List.mem_cons_of_mem j hin)

/-- Where every verdict without acceptances is negative, nothing is accepted. -/
theorem sweep_eq_nil (h : ∀ k ∈ ks, verdict (fun _ => false) k = false) : sweep verdict [] ks = [] := by
  induction ks with
  | nil => rfl
  | cons j ks ih =>
    have hj := h j List.mem_cons_self
    have hnil : (fun k => ([] : List κ).contains k) = fun _ => false := rfl
    rw [sweep, hnil, hj, if_neg Bool.false_ne_true]
    exact ih fun k hk => h k (List.mem_cons_of_mem j hk)

end

/-! ## Verdicts that look below -/

variable {κ : Type} [LinearOrder κ]

/-- The verdict on a key only looks at what was accepted below it. -/
def LooksBelow (verdict : (κ → Bool) → κ → Bool) : Prop :=
  ∀ p q k, (∀ j < k, p j = q j) → verdict p k = verdict q k

variable {verdict : (κ → Bool) → κ → Bool} {accepted ks : List κ} {k : κ} [BEq κ] [LawfulBEq κ]

/-- A key is accepted by the verdict it gets from everything that is accepted. -/
theorem mem_sweep (hlocal : LooksBelow verdict) (hs : ks.Pairwise (· < ·))
    (hbelow : ∀ j ∈ accepted, ∀ i ∈ ks, j < i) : k ∈ sweep verdict accepted ks ↔
      k ∈ accepted ∨ k ∈ ks ∧ verdict ((sweep verdict accepted ks).contains ·) k = true := by
  induction ks generalizing accepted with
  | nil => simp [sweep]
  | cons j ks ih =>
    obtain ⟨hj, hs⟩ := List.pairwise_cons.mp hs
    have hnew : ∀ i ∈ (if verdict (accepted.contains ·) j then accepted ++ [j] else accepted),
        i = j ∧ verdict (accepted.contains ·) j = true ∨ i ∈ accepted := by
      intro i hi
      split at hi
      · rename_i hv
        rcases List.mem_append.mp hi with hi | hi
        · exact Or.inr hi
        · exact Or.inl ⟨List.mem_singleton.mp hi, hv⟩
      · exact Or.inr hi
    have hbelow' : ∀ i ∈ (if verdict (accepted.contains ·) j then accepted ++ [j] else accepted),
        ∀ l ∈ ks, i < l := by
      intro i hi l hl
      rcases hnew i hi with ⟨rfl, -⟩ | hi
      · exact hj l hl
      · exact hbelow i hi l (List.mem_cons_of_mem j hl)
    -- below `j`, everything accepted is in `accepted`
    have hverdict : verdict ((sweep verdict accepted (j :: ks)).contains ·) j =
        verdict (accepted.contains ·) j := by
      refine hlocal _ _ j fun i hi => ?_
      rw [Bool.eq_iff_iff, List.contains_iff_mem, List.contains_iff_mem]
      refine ⟨fun hin => ?_, mem_sweep_of_mem⟩
      rcases mem_of_mem_sweep hin with hin | hin
      · exact hin
      · rcases List.mem_cons.mp hin with rfl | hin
        · exact absurd hi (lt_irrefl _)
        · exact absurd (hj i hin) (lt_asymm hi)
    change k ∈ sweep verdict (if verdict (accepted.contains ·) j then accepted ++ [j] else accepted) ks ↔ _
    rw [ih hs hbelow', List.mem_cons]
    change _ ∨ _ ∧ verdict ((sweep verdict accepted (j :: ks)).contains ·) k = true ↔ _
    constructor
    · rintro (hin | ⟨hin, hv⟩)
      · rcases hnew k hin with ⟨rfl, hv⟩ | hin
        · exact Or.inr ⟨Or.inl rfl, hverdict.trans hv⟩
        · exact Or.inl hin
      · exact Or.inr ⟨Or.inr hin, hv⟩
    · rintro (hin | ⟨rfl | hin, hv⟩)
      · refine Or.inl ?_
        split
        · exact List.mem_append_left _ hin
        · exact hin
      · refine Or.inl ?_
        rw [if_pos (hverdict.symm.trans hv)]
        exact List.mem_append_right _ (List.mem_singleton_self _)
      · exact Or.inr ⟨hin, hv⟩

/-- The preview is the sweep when accepting what it accepts changes no verdict. -/
theorem sweep_eq_previewed_iff (hlocal : LooksBelow verdict) (hs : ks.Pairwise (· < ·)) :
    (∀ k, k ∈ sweep verdict [] ks ↔ previewed verdict ks k = true) ↔
      ∀ k ∈ ks, verdict (fun _ => false) k = verdict (previewed verdict ks) k := by
  have hmem (k : κ) := @mem_sweep κ _ verdict [] ks k _ _ hlocal hs fun j hj => absurd hj List.not_mem_nil
  simp only [List.not_mem_nil, false_or] at hmem
  have hpre (k : κ) (hk : k ∈ ks) : previewed verdict ks k = verdict (fun _ => false) k := by
    rw [previewed, List.contains_iff_mem.mpr hk, Bool.true_and]
  constructor
  · intro h k hk
    have hsame : verdict ((sweep verdict [] ks).contains ·) k = verdict (previewed verdict ks) k :=
      hlocal _ _ k fun j _ => by rw [Bool.eq_iff_iff, List.contains_iff_mem, h j]
    rw [Bool.eq_iff_iff, ← hpre k hk, ← h k, hmem k, ← hsame]
    exact ⟨fun hin => hin.2, fun hv => ⟨hk, hv⟩⟩
  · intro h
    -- by induction on the keys in order: agreement below gives agreement at a key
    have hall : ∀ done rest : List κ, done ++ rest = ks → ∀ k ∈ done,
        (k ∈ sweep verdict [] ks ↔ previewed verdict ks k = true) := by
      intro done
      induction done using List.reverseRecOn with
      | nil => exact fun _ _ k hk => absurd hk List.not_mem_nil
      | append_singleton done j ih =>
        intro rest heq k hk
        have heq' : done ++ (j :: rest) = ks := by rw [← heq, List.append_assoc]; rfl
        have hdone := ih (j :: rest) heq'
        rcases List.mem_append.mp hk with hk | hk
        · exact hdone k hk
        · cases List.mem_singleton.mp hk
          have hin : j ∈ ks := heq' ▸ List.mem_append_right done List.mem_cons_self
          have hbelow : ∀ i < j, (sweep verdict [] ks).contains i = previewed verdict ks i := by
            intro i hi
            by_cases hiks : i ∈ ks
            · have hidone : i ∈ done := by
                rw [← heq'] at hiks hs
                rcases List.mem_append.mp hiks with hd | hd
                · exact hd
                · rcases List.mem_cons.mp hd with rfl | hd
                  · exact absurd hi (lt_irrefl _)
                  · have hpair := (List.pairwise_append.mp hs).2.1
                    exact absurd ((List.pairwise_cons.mp hpair).1 i hd) (lt_asymm hi)
              rw [Bool.eq_iff_iff, List.contains_iff_mem, hdone i hidone]
            · have hno : i ∉ sweep verdict [] ks := fun hc =>
                hiks ((mem_of_mem_sweep hc).resolve_left List.not_mem_nil)
              rw [previewed, Bool.eq_iff_iff, Bool.and_eq_true, List.contains_iff_mem,
                List.contains_iff_mem]
              exact ⟨fun hc => absurd hc hno, fun hc => absurd hc.1 hiks⟩
          rw [hmem j, hlocal _ _ j hbelow, ← h j hin, hpre j hin]
          exact ⟨fun hv => hv.2, fun hv => ⟨hin, hv⟩⟩
    intro k
    by_cases hk : k ∈ ks
    · exact hall ks [] (List.append_nil ks) k hk
    · rw [hmem k, previewed, Bool.and_eq_true, List.contains_iff_mem]
      exact ⟨fun hin => absurd hin.1 hk, fun hin => absurd hin.1 hk⟩

end FinDB.Lib
