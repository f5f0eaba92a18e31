import Mathlib.Data.List.Forall2
import Mathlib.Tactic.Common

/-! # Services that raise

A service either returns or raises, and its endpoint decides what the session
leaves behind. Most exceptions roll back, so a service that only raises those is
a plain `Except ε`. A few are committed: `Raised` carries the state as it was
when they were raised, and `commit` is the endpoint.

The lemmas read a successful run backwards, one bind at a time. -/
namespace FinDB.Lib

variable {ε σ α β : Type}

/-- An exception and, when the endpoint commits on it, the state it leaves. -/
structure Raised (ε σ : Type) where
  err : ε
  kept : Option σ

/-- `if not c: raise e`. -/
def ensure (c : Bool) (e : ε) : Except ε Unit := if c then .ok () else .error e

/-- `if o is None: raise e`. -/
def need (o : Option α) (e : ε) : Except ε α :=
  match o with
  | some a => .ok a
  | none => .error e

/-- A service whose exceptions all roll back. -/
def plain (x : Except ε α) : Except (Raised ε σ) α :=
  match x with
  | .ok a => .ok a
  | .error e => .error ⟨e, none⟩

/-- `if not c: raise e`, where the handler commits `s`. -/
def ensureOrKeep (c : Bool) (e : ε) (s : σ) : Except (Raised ε σ) Unit :=
  if c then .ok () else .error ⟨e, some s⟩

/-- What an endpoint that rolls back leaves of a plain service. -/
def settled (s : σ) : Except ε σ → σ
  | .ok t => t
  | .error _ => s

/-- What an endpoint leaves when some exceptions are committed. -/
def commit (s : σ) : Except (Raised ε σ) σ → σ
  | .ok t => t
  | .error r => r.kept.getD s

/-! ## Reading a run backwards -/

theorem ok_bind {x : Except ε α} {f : α → Except ε β} {b : β} (h : x >>= f = .ok b) :
    ∃ a, x = .ok a ∧ f a = .ok b := by
  cases x with
  | error e => cases h
  | ok a => exact ⟨a, rfl, h⟩

/-- A run whose second answer is dropped. -/
theorem map_fst_ok {x : Except ε (α × β)} {a : α} (h : (·.1) <$> x = .ok a) :
    ∃ b, x = .ok (a, b) := by
  cases x with
  | error e => cases h
  | ok r =>
    cases h
    exact ⟨r.2, rfl⟩

theorem bind_of_error {x : Except ε α} {e : ε} (h : x = .error e) (f : α → Except ε β) :
    x >>= f = .error e := by
  subst h; rfl

/-- A run that raises: here, or in what comes after. -/
theorem error_bind {x : Except ε α} {f : α → Except ε β} {e : ε} (h : x >>= f = .error e) :
    x = .error e ∨ ∃ a, x = .ok a ∧ f a = .error e := by
  cases x with
  | error e' =>
    cases h
    exact Or.inl rfl
  | ok a => exact Or.inr ⟨a, rfl, h⟩

theorem ok_pure {a b : α} (h : (pure a : Except ε α) = .ok b) : b = a := by
  cases h; rfl

theorem mapError_ok {ε' : Type} {x : Except ε α} {f : ε → ε'} {a : α} (h : x.mapError f = .ok a) :
    x = .ok a := by
  cases x with
  | error e => cases h
  | ok b => cases h; rfl

@[simp] theorem ensure_ok {c : Bool} {e : ε} {u : Unit} : ensure c e = .ok u ↔ c = true := by
  unfold ensure
  split <;> simp_all

@[simp] theorem ensure_error {c : Bool} {e e' : ε} :
    ensure c e = .error e' ↔ c = false ∧ e = e' := by
  cases c <;> simp [ensure]

@[simp] theorem need_error {o : Option α} {e e' : ε} : need o e = .error e' ↔ o = none ∧ e = e' := by
  cases o <;> simp [need]

@[simp] theorem need_ok {o : Option α} {e : ε} {a : α} : need o e = .ok a ↔ o = some a := by
  cases o <;> simp [need]

@[simp] theorem plain_ok {x : Except ε α} {a : α} :
    (plain x : Except (Raised ε σ) α) = .ok a ↔ x = .ok a := by
  cases x <;> simp [plain]

/-- A plain service keeps nothing. -/
theorem plain_error {x : Except ε α} {r : Raised ε σ} (h : plain x = .error r) : r.kept = none := by
  cases x with
  | ok a => cases h
  | error e =>
    cases h
    rfl

@[simp] theorem ensureOrKeep_ok {c : Bool} {e : ε} {s : σ} {u : Unit} :
    ensureOrKeep c e s = .ok u ↔ c = true := by
  unfold ensureOrKeep
  split <;> simp_all

theorem exists_bind {x : Except ε α} {f : α → Except ε β} :
    (∃ b, x >>= f = .ok b) ↔ ∃ a, x = .ok a ∧ ∃ b, f a = .ok b := by
  constructor
  · rintro ⟨b, h⟩
    obtain ⟨a, ha, hb⟩ := ok_bind h
    exact ⟨a, ha, b, hb⟩
  · rintro ⟨a, rfl, b, hb⟩
    exact ⟨b, hb⟩

/-- A guarded service returns just when the guard holds and it does. -/
theorem exists_ensure_bind {c : Bool} {e : ε} {f : Unit → Except ε β} :
    (∃ b, ensure c e >>= f = .ok b) ↔ c = true ∧ ∃ b, f () = .ok b := by
  simp only [exists_bind, ensure_ok]
  exact ⟨fun ⟨_, hc, h⟩ => ⟨hc, h⟩, fun ⟨hc, h⟩ => ⟨(), hc, h⟩⟩

/-- A traversal returns just when every element has an answer. -/
theorem exists_mapM_iff {f : α → Except ε β} {xs : List α} :
    (∃ ys, xs.mapM f = .ok ys) ↔ ∀ x ∈ xs, ∃ y, f x = .ok y := by
  induction xs with
  | nil => exact ⟨fun _ x hx => absurd hx List.not_mem_nil, fun _ => ⟨[], rfl⟩⟩
  | cons x xs ih =>
    rw [List.forall_mem_cons, ← ih]
    constructor
    · rintro ⟨ys, h⟩
      rw [List.mapM_cons] at h
      obtain ⟨y, hy, h⟩ := ok_bind h
      obtain ⟨zs, hzs, _⟩ := ok_bind h
      exact ⟨⟨y, hy⟩, zs, hzs⟩
    · rintro ⟨⟨y, hy⟩, ys, hys⟩
      exact ⟨y :: ys, by rw [List.mapM_cons, hy, hys]; rfl⟩

/-- Each side of a pairing meets the other. -/
theorem forall₂_meets {R : α → β → Prop} {xs : List α} {ys : List β} (h : List.Forall₂ R xs ys) :
    (∀ x ∈ xs, ∃ y ∈ ys, R x y) ∧ ∀ y ∈ ys, ∃ x ∈ xs, R x y := by
  induction h with
  | nil => exact ⟨fun x hx => absurd hx List.not_mem_nil, fun y hy => absurd hy List.not_mem_nil⟩
  | @cons x y xs ys hxy _ ih =>
    refine ⟨List.forall_mem_cons.mpr ⟨⟨y, List.mem_cons_self, hxy⟩, fun a ha => ?_⟩,
      List.forall_mem_cons.mpr ⟨⟨x, List.mem_cons_self, hxy⟩, fun b hb => ?_⟩⟩
    · obtain ⟨b, hb, hab⟩ := ih.1 a ha
      exact ⟨b, List.mem_cons_of_mem _ hb, hab⟩
    · obtain ⟨a, ha, hab⟩ := ih.2 b hb
      exact ⟨a, List.mem_cons_of_mem _ ha, hab⟩

/-- A traversal that returns pairs every element with its answer. -/
theorem mapM_pairs {f : α → Except ε β} {xs : List α} {ys : List β} (h : xs.mapM f = .ok ys) :
    List.Forall₂ (fun x y => f x = .ok y) xs ys := by
  induction xs generalizing ys with
  | nil =>
    cases ok_pure h
    exact .nil
  | cons x xs ih =>
    rw [List.mapM_cons] at h
    obtain ⟨y, hy, h⟩ := ok_bind h
    obtain ⟨zs, hzs, h⟩ := ok_bind h
    cases ok_pure h
    exact .cons hy (ih hzs)

theorem mapM_ok {f : α → Except ε β} {xs : List α} {ys : List β} (h : xs.mapM f = .ok ys) :
    (∀ x ∈ xs, ∃ y ∈ ys, f x = .ok y) ∧ ∀ y ∈ ys, ∃ x ∈ xs, f x = .ok y :=
  forall₂_meets (mapM_pairs h)

/-- A traversal keeps what each of its steps keeps. -/
theorem mapM_keeps {γ : Type} {f : α → Except ε β} {g : β → γ} {k : α → γ}
    (hf : ∀ x y, f x = .ok y → g y = k x) {xs : List α} {ys : List β}
    (h : xs.mapM f = .ok ys) : ys.map g = xs.map k := by
  induction xs generalizing ys with
  | nil =>
    cases ok_pure h
    rfl
  | cons x xs ih =>
    rw [List.mapM_cons] at h
    obtain ⟨y, hy, h⟩ := ok_bind h
    obtain ⟨zs, hzs, h⟩ := ok_bind h
    cases ok_pure h
    rw [List.map_cons, List.map_cons, hf x y hy, ih hzs]

theorem mapError_error {ε' : Type} {x : Except ε α} {f : ε → ε'} {e : ε'}
    (h : x.mapError f = .error e) : ∃ e', x = .error e' ∧ f e' = e := by
  cases x with
  | error e' =>
    cases h
    exact ⟨e', rfl, rfl⟩
  | ok a => cases h

/-- A fold raises what one of its steps raises. -/
theorem foldlM_error {f : σ → α → Except ε σ} {P : ε → Prop}
    (hf : ∀ s x e, f s x = .error e → P e) {xs : List α} {s : σ} {e : ε}
    (h : xs.foldlM f s = .error e) : P e := by
  induction xs generalizing s with
  | nil => cases h
  | cons x xs ih =>
    rw [List.foldlM_cons] at h
    rcases error_bind h with h | ⟨t, _, h⟩
    · exact hf s x e h
    · exact ih h

/-- A traversal whose elements all have an answer. -/
theorem mapM_of_ok {γ : Type} {f : β → Except ε γ} {k : α → β} {g : α → γ} {xs : List α}
    (h : ∀ x ∈ xs, f (k x) = .ok (g x)) : (xs.map k).mapM f = .ok (xs.map g) := by
  induction xs with
  | nil => rfl
  | cons x xs ih =>
    rw [List.map_cons, List.mapM_cons, h x List.mem_cons_self,
      ih fun y hy => h y (List.mem_cons_of_mem _ hy)]
    rfl

/-- A filter that returns keeps elements of the list. -/
theorem filterM_mem {f : α → Except ε Bool} {xs ys : List α} (h : xs.filterM f = .ok ys) :
    ∀ y ∈ ys, y ∈ xs := by
  have haux : ∀ (xs acc ys : List α), xs.filterAuxM f acc = .ok ys → ∀ y ∈ ys, y ∈ xs ∨ y ∈ acc := by
    intro xs
    induction xs with
    | nil =>
      intro acc ys h y hy
      cases h
      exact Or.inr hy
    | cons x xs ih =>
      intro acc ys h y hy
      obtain ⟨b, _, h⟩ := ok_bind h
      rcases ih _ ys h y hy with hy | hy
      · exact Or.inl (List.mem_cons_of_mem _ hy)
      · cases b with
        | false => exact Or.inr hy
        | true =>
          rcases List.mem_cons.mp hy with rfl | hy
          · exact Or.inl List.mem_cons_self
          · exact Or.inr hy
  obtain ⟨zs, hzs, h⟩ := ok_bind h
  cases h
  intro y hy
  rcases haux xs [] zs hzs y (List.mem_reverse.mp hy) with hy | hy
  · exact hy
  · exact absurd hy List.not_mem_nil

/-! ## Traversals without a reason -/

/-- A traversal of options pairs every element with its answer. -/
theorem mapM_forall₂ {f : α → Option β} {xs : List α} {ys : List β} (h : xs.mapM f = some ys) :
    List.Forall₂ (fun x y => f x = some y) xs ys := by
  induction xs generalizing ys with
  | nil =>
    cases h
    exact .nil
  | cons x xs ih =>
    simp only [List.mapM_cons, Option.bind_eq_bind, Option.bind_eq_some_iff] at h
    obtain ⟨y, hy, zs, hzs, h⟩ := h
    cases h
    exact .cons hy (ih hzs)

theorem exists_mapM_some {f : α → Option β} {xs : List α} :
    (∃ ys, xs.mapM f = some ys) ↔ ∀ x ∈ xs, ∃ y, f x = some y := by
  induction xs with
  | nil => exact ⟨fun _ x hx => absurd hx List.not_mem_nil, fun _ => ⟨[], rfl⟩⟩
  | cons x xs ih =>
    rw [List.forall_mem_cons, ← ih]
    simp only [List.mapM_cons, Option.bind_eq_bind, Option.bind_eq_some_iff]
    constructor
    · rintro ⟨_, y, hy, zs, hzs, _⟩
      exact ⟨⟨y, hy⟩, zs, hzs⟩
    · rintro ⟨⟨y, hy⟩, ys, hys⟩
      exact ⟨y :: ys, y, hy, ys, hys, rfl⟩

theorem mapM_eq_some {f : α → Option β} {xs : List α} {ys : List β} (h : xs.mapM f = some ys) :
    (∀ x ∈ xs, ∃ y ∈ ys, f x = some y) ∧ ∀ y ∈ ys, ∃ x ∈ xs, f x = some y :=
  forall₂_meets (mapM_forall₂ h)

/-- A run that leaves `t`: it returned `t`, or raised an exception that commits `t`. -/
inductive Leaves : Except (Raised ε σ) σ → σ → Prop where
  | returned (t : σ) : Leaves (.ok t) t
  | kept (e : ε) (t : σ) : Leaves (.error ⟨e, some t⟩) t

theorem commit_leaves (s : σ) (r : Except (Raised ε σ) σ) :
    commit s r = s ∨ Leaves r (commit s r) := by
  cases r with
  | ok t => exact Or.inr (Leaves.returned t)
  | error e =>
    obtain ⟨err, kept⟩ := e
    cases kept with
    | none => exact Or.inl rfl
    | some t => exact Or.inr (Leaves.kept err t)

theorem leaves_ok {t u : σ} (h : Leaves (.ok t : Except (Raised ε σ) σ) u) : u = t := by
  cases h; rfl

theorem leaves_plain {x : Except ε σ} {t : σ} (h : Leaves (plain x) t) : ∃ u, x = .ok u ∧ u = t := by
  cases x with
  | error e => cases h
  | ok u => exact ⟨u, rfl, (leaves_ok h).symm⟩

theorem leaves_plain_bind {x : Except ε α} {f : α → Except (Raised ε σ) σ} {t : σ}
    (h : Leaves (plain x >>= f) t) : ∃ a, x = .ok a ∧ Leaves (f a) t := by
  cases x with
  | error e => cases h
  | ok a => exact ⟨a, rfl, h⟩

theorem leaves_cases {r : Except (Raised ε σ) σ} {t : σ} (h : Leaves r t) :
    r = .ok t ∨ ∃ e, r = .error ⟨e, some t⟩ := by
  cases h with
  | returned => exact Or.inl rfl
  | kept e => exact Or.inr ⟨e, rfl⟩

theorem kept_plain {x : Except ε α} {e : ε} {t : σ} :
    (plain x : Except (Raised ε σ) α) ≠ .error ⟨e, some t⟩ := by
  cases x <;> simp [plain]

theorem kept_plain_bind {x : Except ε α} {f : α → Except (Raised ε σ) β} {e : ε} {t : σ}
    (h : plain x >>= f = .error ⟨e, some t⟩) : ∃ a, x = .ok a ∧ f a = .error ⟨e, some t⟩ := by
  cases x with
  | error _ => cases h
  | ok a => exact ⟨a, rfl, h⟩

theorem kept_keep_bind {c : Bool} {e e' : ε} {s t : σ} {f : Unit → Except (Raised ε σ) β}
    (h : ensureOrKeep c e s >>= f = .error ⟨e', some t⟩) :
    t = s ∨ f () = .error ⟨e', some t⟩ := by
  cases c with
  | false => cases h; exact Or.inl rfl
  | true => exact Or.inr h

theorem leaves_bind {x : Except (Raised ε σ) α} {f : α → Except (Raised ε σ) σ} {t : σ}
    (h : Leaves (x >>= f) t) : (∃ e, x = .error ⟨e, some t⟩) ∨ ∃ a, x = .ok a ∧ Leaves (f a) t := by
  cases x with
  | error e =>
    obtain ⟨err, kept⟩ := e
    cases h
    exact Or.inl ⟨_, rfl⟩
  | ok a => exact Or.inr ⟨a, rfl, h⟩

/-- A service that also answers with a value leaves what its run leaves. -/
theorem leaves_map_bind {x : Except (Raised ε σ) σ} {f : σ → Except (Raised ε σ) (σ × α)} {t : σ}
    (h : Leaves ((x >>= f).map (·.1)) t) :
    (∃ e, x = .error ⟨e, some t⟩) ∨ ∃ u, x = .ok u ∧ Leaves ((f u).map (·.1)) t := by
  cases x with
  | error e =>
    obtain ⟨err, kept⟩ := e
    cases h
    exact Or.inl ⟨_, rfl⟩
  | ok u => exact Or.inr ⟨u, rfl, h⟩

theorem leaves_map_plain_bind {x : Except ε α} {f : α → Except (Raised ε σ) (σ × β)} {t : σ}
    (h : Leaves ((plain x >>= f).map (·.1)) t) : ∃ a, x = .ok a ∧ Leaves ((f a).map (·.1)) t := by
  cases x with
  | error e => cases h
  | ok a => exact ⟨a, rfl, h⟩

end FinDB.Lib
