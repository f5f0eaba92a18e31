import Mathlib.Order.Bounds.Basic
import Mathlib.Order.Lattice

/-! # Extremes of a keyed relation

The first key, the last key and the value at the last one are kept beside a relation that
is only written by key. A batch of writes may be folded into one summary first and merged
at the end: what was written overrides what was there, and so does its summary. -/
namespace FinDB.Lib

/-- The first key, the latest key and the value there. -/
structure Span (κ ν : Type) where
  first : κ
  latest : κ
  value : ν
deriving DecidableEq, Repr

section
variable {κ ν : Type} [LinearOrder κ]

/-- The summary of two batches, of which the second was written later. -/
def Span.merge (s t : Span κ ν) : Span κ ν where
  first := min s.first t.first
  latest := if s.latest ≤ t.latest then t.latest else s.latest
  value := if s.latest ≤ t.latest then t.value else s.value

def Span.single (k : κ) (v : ν) : Span κ ν := ⟨k, k, v⟩

/-- One more write. -/
def Span.put (s : Span κ ν) (k : κ) (v : ν) : Span κ ν := s.merge (Span.single k v)

/-- The summary belongs to the relation. -/
structure Spans (R : κ → ν → Prop) (s : Span κ ν) : Prop where
  first : ∃ v, R s.first v
  latest : R s.latest s.value
  bounds : ∀ k v, R k v → s.first ≤ k ∧ k ≤ s.latest

/-- The summary of a relation that may be empty. -/
def Mirrors (R : κ → ν → Prop) : Option (Span κ ν) → Prop
  | none => ∀ k v, ¬ R k v
  | some s => Spans R s

/-- What `D` has overrides what `R` has. -/
def override (D R : κ → ν → Prop) : κ → ν → Prop := fun k v => D k v ∨ (∀ w, ¬ D k w) ∧ R k v

/-- One key is written. -/
def putKey (R : κ → ν → Prop) (k : κ) (v : ν) : κ → ν → Prop :=
  fun k' v' => if k' = k then v' = v else R k' v'

variable {R D : κ → ν → Prop} {s t : Span κ ν} {k : κ} {v : ν}

theorem Spans.isLeast (h : Spans R s) : IsLeast {k | ∃ v, R k v} s.first :=
  ⟨h.first, fun _ ⟨v, hv⟩ => (h.bounds _ v hv).1⟩

theorem Spans.isGreatest (h : Spans R s) : IsGreatest {k | ∃ v, R k v} s.latest :=
  ⟨⟨s.value, h.latest⟩, fun _ ⟨v, hv⟩ => (h.bounds _ v hv).2⟩

theorem Spans.merge (hR : Spans R s) (hD : Spans D t) : Spans (override D R) (s.merge t) := by
  obtain ⟨⟨fv, hfv⟩, hlatest, hbounds⟩ := hR
  obtain ⟨⟨dv, hdv⟩, hdlatest, hdbounds⟩ := hD
  refine ⟨?_, ?_, ?_⟩
  · unfold Span.merge
    rcases le_total t.first s.first with h | h
    · rw [min_eq_right h]
      exact ⟨dv, Or.inl hdv⟩
    · rw [min_eq_left h]
      by_cases hd : ∃ w, D s.first w
      · obtain ⟨w, hw⟩ := hd
        exact ⟨w, Or.inl hw⟩
      · exact ⟨fv, Or.inr ⟨fun w hw => hd ⟨w, hw⟩, hfv⟩⟩
  · unfold Span.merge
    by_cases h : s.latest ≤ t.latest
    · simp only [if_pos h]
      exact Or.inl hdlatest
    · simp only [if_neg h]
      -- everything the batch wrote lies below
      exact Or.inr ⟨fun w hw => h (hdbounds _ w hw).2, hlatest⟩
  · rintro k v (hk | ⟨_, hk⟩)
    · obtain ⟨hlo, hhi⟩ := hdbounds k v hk
      refine ⟨(min_le_right _ _).trans hlo, hhi.trans ?_⟩
      unfold Span.merge
      by_cases h : s.latest ≤ t.latest
      · simp only [if_pos h, le_refl]
      · simp only [if_neg h]
        exact (not_le.mp h).le
    · obtain ⟨hlo, hhi⟩ := hbounds k v hk
      refine ⟨(min_le_left _ _).trans hlo, hhi.trans ?_⟩
      unfold Span.merge
      by_cases h : s.latest ≤ t.latest
      · simp only [if_pos h]
        exact h
      · simp only [if_neg h, le_refl]

theorem spans_single : Spans (putKey (fun _ _ => False) k v) (Span.single k v) := by
  have hself : putKey (fun _ _ => False) k v k v := by simp [putKey]
  refine ⟨⟨v, hself⟩, hself, fun k' v' h => ?_⟩
  unfold putKey at h
  split at h
  · rename_i hk
    rw [hk]
    exact ⟨le_rfl, le_rfl⟩
  · cases h

theorem override_single : override (putKey (fun _ _ => False) k v) R = putKey R k v := by
  funext k' v'
  unfold override putKey
  by_cases hk : k' = k
  · simp [hk]
  · simp [hk]

/-- Writing into a batch is writing over what it overrides. -/
theorem override_putKey : override (putKey D k v) R = putKey (override D R) k v := by
  funext k' v'
  unfold override putKey
  by_cases hk : k' = k
  · simp [hk]
  · simp [hk]

omit [LinearOrder κ] in
theorem override_empty (h : ∀ k v, ¬ R k v) : override D R = D := by
  funext k v
  exact propext ⟨fun ho => ho.elim id fun ho => absurd ho.2 (h k v), Or.inl⟩

omit [LinearOrder κ] in
theorem override_nothing (h : ∀ k v, ¬ D k v) : override D R = R := by
  funext k v
  exact propext ⟨fun ho => ho.elim (fun hd => absurd hd (h k v)) And.right,
    fun hr => Or.inr ⟨fun w => h k w, hr⟩⟩

theorem Spans.put (h : Spans R s) : Spans (putKey R k v) (s.put k v) := by
  have hmerge := h.merge (@spans_single κ ν _ k v)
  rwa [override_single] at hmerge

/-- A summary that may still be missing takes a batch. -/
theorem Mirrors.merge {o : Option (Span κ ν)} (hR : Mirrors R o) (hD : Spans D t) :
    Spans (override D R) (o.elim t (·.merge t)) := by
  cases o with
  | none =>
    rw [override_empty hR]
    exact hD
  | some s => exact Spans.merge hR hD

/-- And a single write. -/
theorem Mirrors.put {o : Option (Span κ ν)} (h : Mirrors R o) :
    Spans (putKey R k v) (o.elim (Span.single k v) (·.put k v)) := by
  have hmerge := h.merge (@spans_single κ ν _ k v)
  rw [override_single] at hmerge
  exact hmerge

end
end FinDB.Lib
