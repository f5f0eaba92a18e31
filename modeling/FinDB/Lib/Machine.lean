import Mathlib.Data.List.Induction
import Mathlib.Logic.Relation

/-! # Runs of a machine given by its operations

A machine is a total function `apply : ω → σ → σ`: an operation and the state
it leaves, also when it is refused. `StepIf` restricts the operations a run may
take by a condition on the state before the step; the rules below carry an
invariant, a simulation or the moment a property began along a run. -/
namespace FinDB.Lib

open Relation

variable {σ ω : Type} {apply : ω → σ → σ} {ok : σ → ω → Prop}

/-- One step by an operation that meets `ok` in the state before it. -/
def StepIf (apply : ω → σ → σ) (ok : σ → ω → Prop) (s s' : σ) : Prop :=
  ∃ op, ok s op ∧ s' = apply op s

/-- Any finite sequence of such steps. -/
def StepsIf (apply : ω → σ → σ) (ok : σ → ω → Prop) : σ → σ → Prop :=
  ReflTransGen (StepIf apply ok)

theorem StepsIf.refl (s : σ) : StepsIf apply ok s s := ReflTransGen.refl

theorem StepsIf.tail {s t : σ} (h : StepsIf apply ok s t) {op : ω} (ho : ok t op) :
    StepsIf apply ok s (apply op t) := ReflTransGen.tail h ⟨op, ho, rfl⟩

theorem StepsIf.trans {s t u : σ} (h : StepsIf apply ok s t) (h' : StepsIf apply ok t u) :
    StepsIf apply ok s u := ReflTransGen.trans h h'

/-- The invariant rule: what every admitted operation keeps holds after every run. -/
theorem StepsIf.inv {I : σ → Prop} (hs : ∀ s op, I s → ok s op → I (apply op s))
    {s t : σ} (h : StepsIf apply ok s t) (h0 : I s) : I t := by
  induction h with
  | refl => exact h0
  | tail _ hst ih =>
    obtain ⟨op, ho, rfl⟩ := hst
    exact hs _ op ih ho

/-- The same for a relation between the first and the last state. -/
theorem StepsIf.rel {I : σ → Prop} {R : σ → σ → Prop} (hr : ∀ s, R s s)
    (ht : ∀ s t u, R s t → R t u → R s u) (hI : ∀ s op, I s → ok s op → I (apply op s))
    (hs : ∀ s op, I s → ok s op → R s (apply op s))
    {s t : σ} (h : StepsIf apply ok s t) (h0 : I s) : R s t := by
  induction h with
  | refl => exact hr _
  | tail h' hst ih =>
    obtain ⟨op, ho, rfl⟩ := hst
    exact ht _ _ _ ih (hs _ op (StepsIf.inv hI h' h0) ho)

/-- A run may be read under any weaker condition. -/
theorem StepsIf.weaken {ok' : σ → ω → Prop} (hw : ∀ s op, ok s op → ok' s op)
    {s t : σ} (h : StepsIf apply ok s t) : StepsIf apply ok' s t := by
  induction h with
  | refl => exact StepsIf.refl _
  | tail _ hst ih =>
    obtain ⟨op, ho, rfl⟩ := hst
    exact ih.tail (hw _ op ho)

/-- A list of operations, each admitted where it runs. -/
def Admitted (apply : ω → σ → σ) (ok : σ → ω → Prop) : List ω → σ → Prop
  | [], _ => True
  | op :: ops, s => ok s op ∧ Admitted apply ok ops (apply op s)

instance Admitted.decidable [∀ s op, Decidable (ok s op)] :
    (ops : List ω) → (s : σ) → Decidable (Admitted apply ok ops s)
  | [], _ => isTrue trivial
  | op :: ops, s =>
    have := Admitted.decidable ops (apply op s)
    inferInstanceAs (Decidable (ok s op ∧ Admitted apply ok ops (apply op s)))

/-- Running a list of operations. -/
def runAll (apply : ω → σ → σ) : List ω → σ → σ
  | [], s => s
  | op :: ops, s => runAll apply ops (apply op s)

theorem runAll_steps (ops : List ω) (s : σ) (h : Admitted apply ok ops s) :
    StepsIf apply ok s (runAll apply ops s) := by
  induction ops generalizing s with
  | nil => exact StepsIf.refl s
  | cons op ops ih =>
    obtain ⟨ho, hr⟩ := h
    exact ReflTransGen.head ⟨op, ho, rfl⟩ (ih _ hr)

theorem admitted_of_forall (hall : ∀ s op, ok s op) (ops : List ω) (s : σ) :
    Admitted apply ok ops s := by
  induction ops generalizing s with
  | nil => trivial
  | cons op ops ih => exact ⟨hall s op, ih _⟩

theorem runAll_append (xs ys : List ω) (s : σ) :
    runAll apply (xs ++ ys) s = runAll apply ys (runAll apply xs s) := by
  induction xs generalizing s with
  | nil => rfl
  | cons op xs ih => exact ih _

/-- **When a property began.** If `P` fails before a run and holds after it, some
operation of the run establishes it and it holds from then on. -/
theorem exists_entry {P : σ → Prop} (ops : List ω) (s : σ) (hs : ¬ P s)
    (ht : P (runAll apply ops s)) :
    ∃ pre op post, ops = pre ++ op :: post ∧ ¬ P (runAll apply pre s) ∧
      ∀ mid, mid <+: post → P (runAll apply (pre ++ op :: mid) s) := by
  induction ops using List.reverseRecOn with
  | nil => exact absurd ht hs
  | append_singleton xs x ih =>
    by_cases hx : P (runAll apply xs s)
    · obtain ⟨pre, op, post, rfl, hpre, hpost⟩ := ih hx
      refine ⟨pre, op, post ++ [x], by simp, hpre, fun mid hmid => ?_⟩
      rcases List.prefix_concat_iff.mp hmid with rfl | hmid
      · simpa using ht
      · exact hpost mid hmid
    · refine ⟨xs, x, [], rfl, hx, fun mid hmid => ?_⟩
      rw [List.prefix_nil.mp hmid]
      exact ht

end FinDB.Lib
