import Mathlib.Tactic.Basic

/-! # Programs that raise

A method of an object is a program on its state that returns or raises; what it did to
the state before it raised stays. Triples have a postcondition for each way it ends, and
one rule for each construct: sequence, handler, cleanup, loop. -/
namespace FinDB.Lib

section
variable {ε σ α β : Type}

/-- From `P` the program ends in `Q` when it returns and in `E` when it raises. -/
def Triple (P : σ → Prop) (x : EStateM ε σ α) (Q : α → σ → Prop) (E : ε → σ → Prop) : Prop :=
  ∀ s, P s → match x s with
    | .ok a t => Q a t
    | .error e t => E e t

variable {P P' : σ → Prop} {Q Q' : α → σ → Prop} {R : β → σ → Prop} {E E' : ε → σ → Prop}
  {x : EStateM ε σ α}

theorem Triple.conseq (h : Triple P' x Q' E') (hp : ∀ s, P s → P' s)
    (hq : ∀ a s, Q' a s → Q a s) (he : ∀ e s, E' e s → E e s) : Triple P x Q E := by
  intro s hs
  have hx := h s (hp s hs)
  cases hrun : x s with
  | ok a t =>
    rw [hrun] at hx
    exact hq a t hx
  | error e t =>
    rw [hrun] at hx
    exact he e t hx

theorem Triple.pre (h : Triple P' x Q E) (hp : ∀ s, P s → P' s) : Triple P x Q E :=
  h.conseq hp (fun _ _ h => h) fun _ _ h => h

theorem Triple.post (h : Triple P x Q' E) (hq : ∀ a s, Q' a s → Q a s) : Triple P x Q E :=
  h.conseq (fun _ h => h) hq fun _ _ h => h

/-- A fact that the precondition has. -/
theorem Triple.of_pre {φ : Prop} (hp : ∀ s, P s → φ) (h : φ → Triple P x Q E) : Triple P x Q E :=
  fun s hs => h (hp s hs) s hs

theorem Triple.pure {a : α} (h : ∀ s, P s → Q a s) : Triple P (pure a : EStateM ε σ α) Q E :=
  fun s hs => h s hs

theorem Triple.throw {e : ε} (h : ∀ s, P s → E e s) : Triple P (throw e : EStateM ε σ α) Q E :=
  fun s hs => h s hs

theorem Triple.modify {f : σ → σ} {Q : Unit → σ → Prop} (h : ∀ s, P s → Q () (f s)) :
    Triple P (modify f : EStateM ε σ Unit) Q E := fun s hs => h s hs

theorem Triple.bind {f : α → EStateM ε σ β} (hx : Triple P x Q E)
    (hf : ∀ a, Triple (Q a) (f a) R E) : Triple P (x >>= f) R E := by
  intro s hs
  have h := hx s hs
  change match EStateM.bind x f s with
    | .ok a t => R a t
    | .error e t => E e t
  unfold EStateM.bind
  cases hrun : x s with
  | ok a t =>
    rw [hrun] at h
    exact hf a t h
  | error e t =>
    rw [hrun] at h
    exact h

/-- A program that keeps what holds, whichever way it ends. -/
def Keeps (I : σ → Prop) (x : EStateM ε σ α) : Prop := Triple I x (fun _ => I) fun _ => I

theorem Keeps.bind {I : σ → Prop} {f : α → EStateM ε σ β} (hx : Keeps I x) (hf : ∀ a, Keeps I (f a)) :
    Keeps I (x >>= f) := Triple.bind hx hf

theorem Keeps.pure {I : σ → Prop} {a : α} : Keeps I (Pure.pure a : EStateM ε σ α) :=
  Triple.pure fun _ h => h

theorem Keeps.throw {I : σ → Prop} {e : ε} : Keeps I (MonadExcept.throw e : EStateM ε σ α) :=
  Triple.throw fun _ h => h

/-- Reading the state: what follows may use that it is the state. -/
theorem Triple.get {f : σ → EStateM ε σ β} (h : ∀ s, Triple (fun t => t = s ∧ P t) (f s) R E) :
    Triple P (MonadState.get >>= f) R E := fun s hs => h s s ⟨rfl, hs⟩

/-- `try x except e: h e`. -/
theorem Triple.tryCatch {h : ε → EStateM ε σ α} (hx : Triple P x Q E')
    (hh : ∀ e, Triple (E' e) (h e) Q E) : Triple P (tryCatch x h) Q E := by
  intro s hs
  have hrun := hx s hs
  change match EStateM.tryCatch x h s with
    | .ok a t => Q a t
    | .error e t => E e t
  unfold EStateM.tryCatch
  simp only [EStateM.Backtrackable.save]
  cases hout : x s with
  | ok a t =>
    rw [hout] at hrun
    exact hrun
  | error e t =>
    rw [hout] at hrun
    exact hh e t hrun

/-- `try: x finally: fin`. An exception of the cleanup replaces the one before. -/
def cleanup (x : EStateM ε σ α) (fin : EStateM ε σ Unit) : EStateM ε σ α := fun s =>
  match x s with
  | .ok a t => (fin >>= fun _ => Pure.pure a) t
  | .error e t => (fin >>= fun _ => MonadExcept.throw e) t

theorem Triple.cleanup {fin : EStateM ε σ Unit} (hx : Triple P x Q' E')
    (hok : ∀ a, Triple (Q' a) fin (fun _ => Q a) E)
    (herr : ∀ e, Triple (E' e) fin (fun _ => E e) E) : Triple P (cleanup x fin) Q E := by
  intro s hs
  have h := hx s hs
  unfold Lib.cleanup
  cases hrun : x s with
  | ok a t =>
    rw [hrun] at h
    exact (hok a).bind (fun _ => Triple.pure fun _ ht => ht) t h
  | error e t =>
    rw [hrun] at h
    exact (herr e).bind (Q := fun _ => E e) (fun _ => Triple.throw fun _ ht => ht) t h

/-- A loop, with what holds between the elements that are done and those that follow. -/
theorem Triple.forM_split {ι : Type} {f : ι → EStateM ε σ Unit} {xs : List ι} (I : List ι → σ → Prop)
    (h : ∀ done x rest, done ++ x :: rest = xs →
      Triple (I done) (f x) (fun _ => I (done ++ [x])) E) :
    Triple (I []) (xs.forM f) (fun _ => I xs) E := by
  have hfrom : ∀ (rest done : List ι), done ++ rest = xs →
      Triple (I done) (rest.forM f) (fun _ => I xs) E := by
    intro rest
    induction rest with
    | nil =>
      intro done hdone
      rw [List.append_nil] at hdone
      exact Triple.pure fun s hs => hdone ▸ hs
    | cons x rest ih =>
      intro done hdone
      change Triple (I done) (f x >>= fun _ => rest.forM f) _ E
      refine (h done x rest hdone).bind fun _ => ih (done ++ [x]) ?_
      rw [List.append_assoc]
      exact hdone
  exact hfrom xs [] rfl

/-- A loop, with what holds after the elements that are done. -/
theorem Triple.forM {ι : Type} {f : ι → EStateM ε σ Unit} {xs : List ι} (I : List ι → σ → Prop)
    (h : ∀ done x, x ∈ xs → Triple (I done) (f x) (fun _ => I (done ++ [x])) E) :
    Triple (I []) (xs.forM f) (fun _ => I xs) E :=
  Triple.forM_split I fun done x _ hsplit => h done x (by simp [← hsplit])

/-- The same with an invariant that does not count. -/
theorem Triple.forM_inv {ι : Type} {f : ι → EStateM ε σ Unit} {xs : List ι} {I : σ → Prop}
    (h : ∀ x ∈ xs, Triple I (f x) (fun _ => I) E) : Triple I (xs.forM f) (fun _ => I) E :=
  Triple.forM (fun _ => I) fun _ x hx => h x hx

end

/-! ## A part of the state -/

section
variable {ε σ τ α : Type}

/-- A program on a part of the state. -/
def focus (get : σ → τ) (set : τ → σ → σ) (x : EStateM ε τ α) : EStateM ε σ α := fun s =>
  match x (get s) with
  | .ok a t => .ok a (set t s)
  | .error e t => .error e (set t s)

/-- Whatever the program does to its part, the rest is as it was. -/
theorem Triple.focus {get : σ → τ} {set : τ → σ → σ} {x : EStateM ε τ α} {I : σ → Prop}
    (h : ∀ t s, I s → I (set t s)) : Triple I (focus get set x) (fun _ => I) fun _ => I := by
  intro s hs
  unfold Lib.focus
  cases x (get s) with
  | ok a t => exact h t s hs
  | error e t => exact h t s hs

end
end FinDB.Lib
