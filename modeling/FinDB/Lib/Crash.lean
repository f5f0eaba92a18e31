import FinDB.Lib.Effect

/-! # Programs that may die between two writes

A program works on a durable state and on memory that is lost with the process. Every state
that was ever on the disk is kept in a trace, so a process that dies somewhere leaves one of
them. A guard has an invariant for all of these states and, between the steps, facts about the
state that is there. -/
namespace FinDB.Lib

/-- The disk, the states it has had, newest first, and the memory of the process. -/
structure Machine (δ μ : Type) where
  disk : δ
  trace : List δ
  memory : μ

/-- A program of a process. -/
abbrev Process (ε δ μ α : Type) := EStateM ε (Machine δ μ) α

section
variable {ε δ μ α β : Type}

/-- The disk is read. -/
def readDisk : Process ε δ μ δ := (·.disk) <$> get

/-- The disk is changed by one write. -/
def write (f : δ → δ) : Process ε δ μ Unit :=
  modify fun m => { m with disk := f m.disk, trace := f m.disk :: m.trace }

/-- One transaction: it commits what it returns, or it raises and leaves the disk. -/
def transact {ε' : Type} (raised : ε' → ε) (f : δ → Except ε' (δ × α)) : Process ε δ μ α := do
  match f (← readDisk) with
  | .ok (d, a) =>
    write fun _ => d
    return a
  | .error e => throw (raised e)

/-- Memory is changed; the disk does not see it. -/
def think (f : μ → α × μ) : Process ε δ μ α := do
  let (a, memory) := f (← get).memory
  modify fun m => { m with memory }
  return a

/-- A computation that does not touch anything. -/
def lift {ε' : Type} (raised : ε' → ε) : Except ε' α → Process ε δ μ α
  | .ok a => pure a
  | .error e => throw (raised e)

/-- Every state a process started on `d` can leave behind, wherever it dies. -/
def crashes (x : Process ε δ μ α) (d : δ) (memory : μ) : List δ :=
  match x ⟨d, [d], memory⟩ with
  | .ok _ m => m.trace
  | .error _ m => m.trace

/-! ## Guards -/

/-- The invariant holds of the states since `base`, and the facts of the one that is there. -/
structure Safe (I φ : δ → Prop) (base : List δ) (m : Machine δ μ) : Prop where
  disk : I m.disk
  trace : ∃ since, m.trace = since ++ base ∧ ∀ d ∈ since, I d
  facts : φ m.disk

/-- From the facts `φ` the program keeps the invariant at every write, and has the facts `Q`
when it returns. -/
def Guarded (I φ : δ → Prop) (x : Process ε δ μ α) (Q : α → δ → Prop) : Prop :=
  ∀ base, Triple (Safe I φ base) x (fun a => Safe I (Q a) base) fun _ => Safe I (fun _ => True) base

variable {I φ R : δ → Prop} {Q Q' : α → δ → Prop} {χ : β → δ → Prop} {x : Process ε δ μ α}
  {base : List δ}

theorem Safe.imp {m : Machine δ μ} (h : Safe I φ base m) (hφ : ∀ d, I d → φ d → R d) :
    Safe I R base m := ⟨h.disk, h.trace, hφ _ h.disk h.facts⟩

theorem Guarded.pre (h : Guarded I R x Q) (hφ : ∀ d, I d → φ d → R d) : Guarded I φ x Q :=
  fun base => Triple.pre (h base) fun _ hs => hs.imp hφ

theorem Guarded.post (h : Guarded I φ x Q') (hQ : ∀ a d, I d → Q' a d → Q a d) : Guarded I φ x Q :=
  fun base => Triple.post (h base) fun a _ hs => hs.imp (hQ a)

/-- A fact that does not mention the disk. -/
theorem Guarded.of_facts {p : Prop} (hp : ∀ d, I d → φ d → p) (h : p → Guarded I φ x Q) :
    Guarded I φ x Q :=
  fun base => Triple.of_pre (fun _ hs => hp _ hs.disk hs.facts) fun hfact => h hfact base

theorem Guarded.pure {a : α} (h : ∀ d, I d → φ d → Q a d) :
    Guarded I φ (Pure.pure a : Process ε δ μ α) Q := fun _ => Triple.pure fun _ hs => hs.imp h

theorem Guarded.throw {e : ε} : Guarded I φ (MonadExcept.throw e : Process ε δ μ α) Q :=
  fun _ => Triple.throw fun _ hs => hs.imp fun _ _ _ => trivial

theorem Guarded.bind {f : α → Process ε δ μ β} (hx : Guarded I φ x Q)
    (hf : ∀ a, Guarded I (Q a) (f a) χ) : Guarded I φ (x >>= f) χ :=
  fun base => Triple.bind (hx base) fun a => hf a base

/-- Reading: what follows may use that the disk is what was read. -/
theorem Guarded.readDisk {f : δ → Process ε δ μ β}
    (h : ∀ d, I d → φ d → Guarded I (fun d' => d' = d ∧ φ d') (f d) χ) :
    Guarded I φ (Lib.readDisk >>= f) χ := fun base m hm =>
  h m.disk hm.disk hm.facts base m ⟨hm.disk, hm.trace, rfl, hm.facts⟩

theorem Guarded.write {f : δ → δ} {Q : Unit → δ → Prop}
    (h : ∀ d, I d → φ d → I (f d) ∧ Q () (f d)) :
    Guarded I φ (Lib.write f : Process ε δ μ Unit) Q :=
  fun _ => Triple.modify fun m hm => by
    obtain ⟨hI, hQ⟩ := h _ hm.disk hm.facts
    obtain ⟨since, hsince, htrace⟩ := hm.trace
    refine ⟨hI, ⟨f m.disk :: since, congrArg (f m.disk :: ·) hsince, fun d hd => ?_⟩, hQ⟩
    rcases List.mem_cons.mp hd with rfl | hd
    · exact hI
    · exact htrace d hd

theorem Guarded.transact {ε' : Type} {raised : ε' → ε} {f : δ → Except ε' (δ × α)}
    (h : ∀ d d' a, I d → φ d → f d = .ok (d', a) → I d' ∧ Q a d') :
    Guarded I φ (Lib.transact raised f : Process ε δ μ α) Q := by
  refine Guarded.readDisk fun d hI hφ => ?_
  cases hf : f d with
  | error e => exact Guarded.throw
  | ok r =>
    obtain ⟨d', a⟩ := r
    obtain ⟨hI', hQ⟩ := h d d' a hI hφ hf
    exact (Guarded.write fun _ _ _ => ⟨hI', hQ⟩).bind fun _ => Guarded.pure fun _ _ h => h

theorem Guarded.think {f : μ → α × μ} (h : ∀ a d, I d → φ d → Q a d) :
    Guarded I φ (Lib.think f : Process ε δ μ α) Q := fun _ _ hm =>
  ⟨hm.disk, hm.trace, h _ _ hm.disk hm.facts⟩

theorem Guarded.lift {ε' : Type} {raised : ε' → ε} {r : Except ε' α}
    (h : ∀ a d, I d → φ d → r = .ok a → Q a d) :
    Guarded I φ (Lib.lift raised r : Process ε δ μ α) Q := by
  cases r with
  | error e => exact Guarded.throw
  | ok a => exact Guarded.pure fun d hI hφ => h a d hI hφ rfl

/-- A handler knows nothing but the invariant. -/
theorem Guarded.tryCatch {h : ε → Process ε δ μ α} (hx : Guarded I φ x Q)
    (hh : ∀ e, Guarded I (fun _ => True) (h e) Q) : Guarded I φ (tryCatch x h) Q :=
  fun base => Triple.tryCatch (hx base) fun e => hh e base

theorem Guarded.forM_inv {ι : Type} {f : ι → Process ε δ μ Unit} {xs : List ι}
    (h : ∀ x ∈ xs, Guarded I φ (f x) fun _ => φ) : Guarded I φ (xs.forM f) fun _ => φ :=
  fun base => Triple.forM_inv fun x hx => h x hx base

/-- A part of the invariant that holds from some step on. -/
theorem Guarded.since (h : Guarded (fun d => I d ∧ R d) φ x Q) :
    Guarded I (fun d => R d ∧ φ d) x fun a d => R d ∧ Q a d := by
  intro base m hm
  obtain ⟨since, hsince, htrace⟩ := hm.trace
  have hrun := h m.trace m ⟨⟨hm.disk, hm.facts.1⟩, ⟨[], rfl, fun d hd => absurd hd List.not_mem_nil⟩,
    hm.facts.2⟩
  have hjoin : ∀ m' : Machine δ μ, (∃ later, m'.trace = later ++ m.trace ∧ ∀ d ∈ later, I d ∧ R d) →
      ∃ all, m'.trace = all ++ base ∧ ∀ d ∈ all, I d := by
    rintro m' ⟨later, hlater, hall⟩
    refine ⟨later ++ since, by rw [hlater, hsince, List.append_assoc], fun d hd => ?_⟩
    rcases List.mem_append.mp hd with hd | hd
    · exact (hall d hd).1
    · exact htrace d hd
  cases hx : x m with
  | ok a m' =>
    rw [hx] at hrun
    exact ⟨hrun.disk.1, hjoin m' hrun.trace, hrun.disk.2, hrun.facts⟩
  | error e m' =>
    rw [hx] at hrun
    exact ⟨hrun.disk.1, hjoin m' hrun.trace, trivial⟩

/-- Wherever a guarded process dies, it leaves the invariant. -/
theorem Guarded.crash (h : Guarded I φ x Q) {d d' : δ} {memory : μ} (hI : I d) (hφ : φ d)
    (hd : d' ∈ crashes x d memory) : I d' := by
  have hsafe : Safe I φ [] (⟨d, [d], memory⟩ : Machine δ μ) :=
    ⟨hI, ⟨[d], rfl, fun e he => List.mem_singleton.mp he ▸ hI⟩, hφ⟩
  have hrun := h [] _ hsafe
  have hall : ∀ m : Machine δ μ, (∃ since, m.trace = since ++ [] ∧ ∀ e ∈ since, I e) →
      d' ∈ m.trace → I d' := by
    rintro m ⟨since, hsince, htrace⟩ hin
    rw [hsince, List.append_nil] at hin
    exact htrace d' hin
  unfold crashes at hd
  cases hx : x ⟨d, [d], memory⟩ with
  | ok a m =>
    rw [hx] at hrun hd
    exact hall m hrun.trace hd
  | error e m =>
    rw [hx] at hrun hd
    exact hall m hrun.trace hd

end
end FinDB.Lib
