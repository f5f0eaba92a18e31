import Mathlib.Algebra.GroupWithZero.Nat
import Mathlib.Data.List.Nodup
import Mathlib.Data.List.Basic
import Mathlib.Data.List.Perm.Subperm

/-! # Keyed tables

A relation with a primary key, as a list of rows in insertion order. The key
constraint is a field, so a table with two rows of one key cannot be built:
`insert?` refuses a taken key (the database's integrity error) and `update`
takes only row functions that keep the key. -/
namespace FinDB.Lib

structure Table {ρ κ : Type} (key : ρ → κ) where
  rows : List ρ
  nodup : (rows.map key).Nodup

namespace Table

variable {ρ κ : Type} {key : ρ → κ}

instance : Membership ρ (Table key) := ⟨fun t r => r ∈ t.rows⟩

theorem mem_def {t : Table key} {r : ρ} : r ∈ t ↔ r ∈ t.rows := Iff.rfl

theorem ext_rows {t t' : Table key} (h : t.rows = t'.rows) : t = t' := by
  cases t
  cases t'
  cases h
  rfl

def empty : Table key := ⟨[], by simp⟩

@[simp] theorem not_mem_empty (r : ρ) : ¬ r ∈ (empty : Table key) := by simp [mem_def, empty]

/-- Two rows of one key are one row. -/
theorem eq_of_key {t : Table key} {r q : ρ} (hr : r ∈ t) (hq : q ∈ t) (h : key r = key q) :
    r = q := List.inj_on_of_nodup_map t.nodup hr hq h

/-- `UPDATE ... WHERE p`: every row satisfying `p` is rewritten. -/
def update (t : Table key) (p : ρ → Bool) (f : ρ → ρ)
    (hf : ∀ r, key (f r) = key r := by intro _; rfl) : Table key where
  rows := t.rows.map fun r => if p r then f r else r
  nodup := by
    have h : key ∘ (fun r => if p r then f r else r) = key := by
      funext r
      simp only [Function.comp]
      split
      · exact hf r
      · rfl
    rw [List.map_map, h]
    exact t.nodup

theorem mem_update {t : Table key} {p : ρ → Bool} {f : ρ → ρ} {hf} {r : ρ} :
    r ∈ t.update p f hf ↔ ∃ q ∈ t, r = if p q then f q else q := by
  simp only [mem_def, update, List.mem_map]
  exact ⟨fun ⟨q, hq, h⟩ => ⟨q, hq, h.symm⟩, fun ⟨q, hq, h⟩ => ⟨q, hq, h.symm⟩⟩

/-- Counting or listing by a column that the update keeps sees the rewritten rows
at their old places. -/
theorem filter_update {t : Table key} {p : ρ → Bool} {f : ρ → ρ} (hf : ∀ r, key (f r) = key r)
    {c : ρ → Bool} (hc : ∀ r, c (f r) = c r) :
    (t.update p f hf).rows.filter c = (t.rows.filter c).map fun r => if p r then f r else r := by
  simp only [update, List.filter_map]
  congr 1
  apply List.filter_congr
  intro r _
  simp only [Function.comp]
  split
  · exact hc r
  · rfl

/-- A column that the update keeps reads as before. -/
theorem map_update {β : Type} {t : Table key} {p : ρ → Bool} {f : ρ → ρ}
    (hf : ∀ r, key (f r) = key r) {c : ρ → β} (hc : ∀ r, c (f r) = c r) :
    (t.update p f hf).rows.map c = t.rows.map c := by
  simp only [update, List.map_map]
  apply List.map_congr_left
  intro r _
  simp only [Function.comp]
  split
  · exact hc r
  · rfl

/-- Every key of `t` is still one of `t'`. -/
def Keeps (t t' : Table key) : Prop := ∀ r ∈ t, ∃ r' ∈ t', key r' = key r

theorem Keeps.refl (t : Table key) : t.Keeps t := fun r hr => ⟨r, hr, rfl⟩

theorem Keeps.trans {t t' t'' : Table key} (h : t.Keeps t') (h' : t'.Keeps t'') : t.Keeps t'' := by
  intro r hr
  obtain ⟨r', hr', hk⟩ := h r hr
  obtain ⟨r'', hr'', hk'⟩ := h' r' hr'
  exact ⟨r'', hr'', hk'.trans hk⟩

theorem keeps_update {t : Table key} {p : ρ → Bool} {f : ρ → ρ} (hf : ∀ r, key (f r) = key r) :
    t.Keeps (t.update p f hf) := by
  intro r hr
  refine ⟨_, mem_update.mpr ⟨r, hr, rfl⟩, ?_⟩
  split
  · exact hf r
  · rfl

/-- `DELETE ... WHERE p`. -/
def delete (t : Table key) (p : ρ → Bool) : Table key where
  rows := t.rows.filter fun r => !p r
  nodup := t.nodup.sublist (List.filter_sublist.map key)

theorem mem_delete {t : Table key} {p : ρ → Bool} {r : ρ} :
    r ∈ t.delete p ↔ r ∈ t ∧ p r = false := by
  simp [mem_def, delete]

/-- Deleting by key and updating commute. -/
theorem delete_update {t : Table key} {p : ρ → Bool} {f : ρ → ρ} {hf} {d : κ → Bool} :
    (t.update p f hf).delete (fun r => d (key r)) =
      (t.delete fun r => d (key r)).update p f hf :=
  ext_rows (filter_update hf fun r => congrArg (fun k => !d k) (hf r))

section Keyed
variable [DecidableEq κ]

def find? (t : Table key) (k : κ) : Option ρ := t.rows.find? fun r => decide (key r = k)

theorem find?_eq_some {t : Table key} {k : κ} {r : ρ} :
    t.find? k = some r ↔ r ∈ t ∧ key r = k := by
  constructor
  · intro h
    exact ⟨List.mem_of_find?_eq_some h, by simpa using List.find?_some h⟩
  · rintro ⟨hr, hk⟩
    have hsome : (t.find? k).isSome := List.find?_isSome.mpr ⟨r, hr, by simpa using hk⟩
    obtain ⟨q, hq⟩ := Option.isSome_iff_exists.mp hsome
    have hmem : q ∈ t := List.mem_of_find?_eq_some hq
    have hkey : key q = k := by simpa using List.find?_some hq
    rw [hq, eq_of_key hmem hr (hkey.trans hk.symm)]

theorem find?_eq_none {t : Table key} {k : κ} : t.find? k = none ↔ ∀ r ∈ t, key r ≠ k := by
  simp [find?, List.find?_eq_none, mem_def]

theorem mem_iff_find? {t : Table key} {r : ρ} : r ∈ t ↔ t.find? (key r) = some r :=
  ⟨fun h => find?_eq_some.mpr ⟨h, rfl⟩, fun h => (find?_eq_some.mp h).1⟩

theorem find?_self {t : Table key} {r : ρ} (h : r ∈ t) : t.find? (key r) = some r :=
  find?_eq_some.mpr ⟨h, rfl⟩

/-- `UPDATE ... WHERE key = k`. -/
def modify (t : Table key) (k : κ) (f : ρ → ρ)
    (hf : ∀ r, key (f r) = key r := by intro _; rfl) : Table key :=
  t.update (fun r => decide (key r = k)) f hf

theorem mem_modify {t : Table key} {k : κ} {f : ρ → ρ} {hf} {r : ρ} :
    r ∈ t.modify k f hf ↔ (r ∈ t ∧ key r ≠ k) ∨ ∃ q ∈ t, key q = k ∧ r = f q := by
  unfold modify
  rw [mem_update]
  constructor
  · rintro ⟨q, hq, he⟩
    by_cases hk : key q = k
    · right; exact ⟨q, hq, hk, by simpa [hk] using he⟩
    · left
      have : r = q := by simpa [hk] using he
      subst this
      exact ⟨hq, hk⟩
  · rintro (⟨hr, hk⟩ | ⟨q, hq, hk, rfl⟩)
    · exact ⟨r, hr, by simp [hk]⟩
    · exact ⟨q, hq, by simp [hk]⟩

/-- The rows after rewriting a row that is there. -/
theorem mem_modify_row {t : Table key} {a r : ρ} {f : ρ → ρ} (hf : ∀ r, key (f r) = key r)
    (ha : a ∈ t) : r ∈ t.modify (key a) f hf ↔ (r ∈ t ∧ key r ≠ key a) ∨ r = f a := by
  rw [mem_modify]
  constructor
  · rintro (h | ⟨q, hq, hk, rfl⟩)
    · exact Or.inl h
    · rw [eq_of_key hq ha hk]
      exact Or.inr rfl
  · rintro (h | rfl)
    · exact Or.inl h
    · exact Or.inr ⟨a, ha, rfl, rfl⟩

theorem mem_row {t : Table key} {a r : ρ} (ha : a ∈ t) :
    r ∈ t ↔ (r ∈ t ∧ key r ≠ key a) ∨ r = a := by
  constructor
  · intro hr
    by_cases hk : key r = key a
    · exact Or.inr (eq_of_key hr ha hk)
    · exact Or.inl ⟨hr, hk⟩
  · rintro (h | rfl)
    · exact h.1
    · exact ha

theorem find?_update {t : Table key} {p : ρ → Bool} {f : ρ → ρ} {hf} {k : κ} :
    (t.update p f hf).find? k = (t.find? k).map fun r => if p r then f r else r := by
  cases h : t.find? k with
  | none =>
    rw [find?_eq_none] at h
    simp only [Option.map_none]
    rw [find?_eq_none]
    intro r hr
    obtain ⟨q, hq, rfl⟩ := mem_update.mp hr
    have := h q hq
    split
    · rw [hf]; exact this
    · exact this
  | some q =>
    obtain ⟨hq, hk⟩ := find?_eq_some.mp h
    simp only [Option.map_some]
    rw [find?_eq_some]
    refine ⟨mem_update.mpr ⟨q, hq, rfl⟩, ?_⟩
    split
    · rw [hf]; exact hk
    · exact hk

theorem find?_modify {t : Table key} {k j : κ} {f : ρ → ρ} {hf} :
    (t.modify k f hf).find? j = (t.find? j).map fun r => if j = k then f r else r := by
  unfold modify
  rw [find?_update]
  cases h : t.find? j with
  | none => rfl
  | some r =>
    have hk := (find?_eq_some.mp h).2
    simp [hk]

/-- A column that the update keeps, of a row that is there. -/
theorem find?_modify_col {β : Type} {c : ρ → β} {t : Table key} {k j : κ} {f : ρ → ρ} (hf) {r : ρ}
    (hc : ∀ r, c (f r) = c r) (h : t.find? j = some r) :
    ∃ r', (t.modify k f hf).find? j = some r' ∧ c r' = c r := by
  rw [find?_modify, h]
  refine ⟨_, rfl, ?_⟩
  split
  · exact hc r
  · rfl

/-- `INSERT`: a taken key is the integrity error `none`. -/
def insert? (t : Table key) (r : ρ) : Option (Table key) :=
  if h : key r ∈ t.rows.map key then none
  else some ⟨t.rows ++ [r], by
    rw [List.map_append, List.nodup_append]
    refine ⟨t.nodup, by simp, ?_⟩
    intro a ha b hb
    simp only [List.map_cons, List.map_nil, List.mem_singleton] at hb
    subst hb
    intro he
    exact h (he ▸ ha)⟩

theorem exists_insert? {t : Table key} {r : ρ} (h : ∀ q ∈ t, key q ≠ key r) :
    ∃ t', t.insert? r = some t' := by
  have hfresh : ¬ key r ∈ t.rows.map key := by
    intro hmem
    obtain ⟨q, hq, he⟩ := List.mem_map.mp hmem
    exact h q hq he
  exact ⟨_, dif_neg hfresh⟩

theorem insert?_rows {t t' : Table key} {r : ρ} (h : t.insert? r = some t') :
    t'.rows = t.rows ++ [r] := by
  unfold insert? at h
  split at h
  · cases h
  · cases h; rfl

theorem insert?_fresh {t t' : Table key} {r : ρ} (h : t.insert? r = some t') :
    ∀ q ∈ t, key q ≠ key r := by
  unfold insert? at h
  split at h
  · cases h
  · rename_i hf
    intro q hq he
    exact hf (List.mem_map.mpr ⟨q, hq, he⟩)

theorem mem_insert? {t t' : Table key} {r q : ρ} (h : t.insert? r = some t') :
    q ∈ t' ↔ q ∈ t ∨ q = r := by
  rw [mem_def, insert?_rows h]
  simp [mem_def]

theorem find?_insert? {t t' : Table key} {r : ρ} {k : κ} (h : t.insert? r = some t') :
    t'.find? k = if key r = k then some r else t.find? k := by
  split
  · rename_i hk
    exact find?_eq_some.mpr ⟨(mem_insert? h).mpr (Or.inr rfl), hk⟩
  · rename_i hk
    cases hf : t.find? k with
    | none =>
      rw [find?_eq_none] at hf ⊢
      intro q hq
      rcases (mem_insert? h).mp hq with hq | rfl
      · exact hf q hq
      · exact hk
    | some q =>
      obtain ⟨hq, hkq⟩ := find?_eq_some.mp hf
      exact find?_eq_some.mpr ⟨(mem_insert? h).mpr (Or.inl hq), hkq⟩

/-- `INSERT ... ON CONFLICT DO NOTHING`. -/
def insertNew (t : Table key) (r : ρ) : Table key := (t.insert? r).getD t

theorem keeps_modify {t : Table key} {k : κ} {f : ρ → ρ} (hf : ∀ r, key (f r) = key r) :
    t.Keeps (t.modify k f hf) := keeps_update hf

theorem keeps_insert? {t t' : Table key} {r : ρ} (h : t.insert? r = some t') : t.Keeps t' :=
  fun q hq => ⟨q, (mem_insert? h).mpr (Or.inl hq), rfl⟩

/-- `INSERT ... ON CONFLICT DO UPDATE`: a taken key has its row rewritten by `f`. -/
def upsert (t : Table key) (r : ρ) (f : ρ → ρ) (hf : ∀ r, key (f r) = key r := by intro _; rfl) :
    Table key :=
  match t.insert? r with
  | some t' => t'
  | none => t.modify (key r) f hf

theorem insert?_eq_none {t : Table key} {r : ρ} (h : t.insert? r = none) :
    ∃ q ∈ t, key q = key r := by
  unfold insert? at h
  split at h
  · rename_i hmem
    obtain ⟨q, hq, he⟩ := List.mem_map.mp hmem
    exact ⟨q, hq, he⟩
  · cases h

theorem find?_upsert {t : Table key} {r : ρ} {f : ρ → ρ} {hf} {k : κ} :
    (t.upsert r f hf).find? k =
      if key r = k then some ((t.find? k).elim r f) else t.find? k := by
  unfold upsert
  cases h : t.insert? r with
  | some t' =>
    simp only
    rw [find?_insert? h]
    split
    · rename_i hk
      have hnone : t.find? k = none :=
        find?_eq_none.mpr fun q hq => hk ▸ insert?_fresh h q hq
      rw [hnone]
      rfl
    · rfl
  | none =>
    obtain ⟨q, hq, hkey⟩ := insert?_eq_none h
    simp only
    rw [find?_modify]
    by_cases hk : key r = k
    · have hfind : t.find? k = some q := find?_eq_some.mpr ⟨hq, hkey.trans hk⟩
      rw [if_pos hk, hfind]
      simp [hk]
    · rw [if_neg hk]
      simp [Ne.symm hk]

theorem find?_insertNew {t : Table key} {r : ρ} {k : κ} :
    (t.insertNew r).find? k = (t.find? k).or (if key r = k then some r else none) := by
  unfold insertNew
  cases h : t.insert? r with
  | some t' =>
    rw [Option.getD_some, find?_insert? h]
    split
    · rename_i hk
      have hnone : t.find? k = none := find?_eq_none.mpr fun q hq => hk ▸ insert?_fresh h q hq
      rw [hnone]
      rfl
    · rw [Option.or_none]
  | none =>
    obtain ⟨q, hq, hkey⟩ := insert?_eq_none h
    rw [Option.getD_none]
    split
    · rename_i hk
      rw [find?_eq_some.mpr ⟨hq, hkey.trans hk⟩]
      rfl
    · rw [Option.or_none]

theorem mem_insertNew {t : Table key} {r q : ρ} :
    q ∈ t.insertNew r ↔ q ∈ t ∨ (q = r ∧ t.find? (key r) = none) := by
  rw [mem_iff_find?, find?_insertNew, mem_iff_find?]
  cases h : t.find? (key q) with
  | some q' =>
    constructor
    · exact Or.inl
    · rintro (h' | ⟨rfl, hnone⟩)
      · exact h'
      · rw [h] at hnone
        cases hnone
  | none =>
    rw [Option.none_or]
    constructor
    · intro he
      split at he
      · cases he
        exact Or.inr ⟨rfl, h⟩
      · cases he
    · rintro (he | ⟨rfl, -⟩)
      · cases he
      · exact if_pos rfl

theorem mem_upsert {t : Table key} {r q : ρ} {f : ρ → ρ} {hf} :
    q ∈ t.upsert r f hf ↔ (q ∈ t ∧ key q ≠ key r) ∨ q = (t.find? (key r)).elim r f := by
  have hkey : key ((t.find? (key r)).elim r f) = key r := by
    cases h : t.find? (key r) with
    | none => rfl
    | some q' => exact (hf q').trans (find?_eq_some.mp h).2
  rw [mem_iff_find?, find?_upsert]
  by_cases hk : key r = key q
  · rw [if_pos hk, ← hk]
    constructor
    · exact fun h => Or.inr (Option.some.inj h).symm
    · rintro (⟨-, hne⟩ | h)
      · exact absurd rfl hne
      · rw [h]
  · rw [if_neg hk, ← mem_iff_find?]
    constructor
    · exact fun h => Or.inl ⟨h, Ne.symm hk⟩
    · rintro (⟨h, -⟩ | h)
      · exact h
      · exact absurd (by rw [h, hkey]) hk

theorem keeps_upsert {t : Table key} {r : ρ} {f : ρ → ρ} (hf : ∀ r, key (f r) = key r) :
    t.Keeps (t.upsert r f hf) := by
  unfold upsert
  cases h : t.insert? r with
  | some t' => exact keeps_insert? h
  | none => exact keeps_modify hf

theorem find?_delete {t : Table key} {p : ρ → Bool} {k : κ} :
    (t.delete p).find? k = (t.find? k).filter fun r => !p r := by
  cases h : t.find? k with
  | none =>
    rw [Option.filter_none, find?_eq_none]
    exact fun r hr => find?_eq_none.mp h r (mem_delete.mp hr).1
  | some q =>
    obtain ⟨hq, hkey⟩ := find?_eq_some.mp h
    cases hp : p q with
    | false =>
      rw [Option.filter_some, hp]
      exact find?_eq_some.mpr ⟨mem_delete.mpr ⟨hq, hp⟩, hkey⟩
    | true =>
      rw [Option.filter_some, hp]
      refine find?_eq_none.mpr fun r hr he => ?_
      obtain ⟨hr, hpr⟩ := mem_delete.mp hr
      rw [eq_of_key hr hq (he.trans hkey.symm), hp] at hpr
      cases hpr

/-- Deleting by key and an upsert of a key that stays commute. -/
theorem delete_upsert {t : Table key} {r : ρ} {f : ρ → ρ} {hf} {d : κ → Bool}
    (hd : d (key r) = false) : (t.upsert r f hf).delete (fun r => d (key r)) =
      (t.delete fun r => d (key r)).upsert r f hf := by
  unfold upsert
  cases h : t.insert? r with
  | none =>
    obtain ⟨q, hq, hkey⟩ := insert?_eq_none h
    cases h' : (t.delete fun r => d (key r)).insert? r with
    | none =>
      unfold modify
      exact delete_update
    | some t' => exact absurd hkey (insert?_fresh h' q (mem_delete.mpr ⟨hq, by rw [hkey, hd]⟩))
  | some t' =>
    cases h' : (t.delete fun r => d (key r)).insert? r with
    | none =>
      obtain ⟨q, hq, hkey⟩ := insert?_eq_none h'
      exact absurd hkey (insert?_fresh h q (mem_delete.mp hq).1)
    | some t'' =>
      apply ext_rows
      simp only
      rw [insert?_rows h']
      simp [delete, insert?_rows h, hd]

/-! ## Totals -/

/-- `SUM(g)`. -/
def total (t : Table key) (g : ρ → Nat) : Nat := (t.rows.map g).sum

omit [DecidableEq κ] in
theorem sum_filter (p : ρ → Bool) (g : ρ → Nat) (rows : List ρ) :
    ((rows.filter p).map g).sum = (rows.map fun r => if p r then g r else 0).sum := by
  induction rows with
  | nil => rfl
  | cons r rest ih =>
    rw [List.filter_cons, List.map_cons, List.sum_cons, ← ih]
    cases p r <;> simp

omit [DecidableEq κ] in
theorem total_congr {t : Table key} {g g' : ρ → Nat} (h : ∀ r ∈ t, g r = g' r) :
    t.total g = t.total g' := by
  unfold total
  rw [List.map_congr_left h]

omit [DecidableEq κ] in
theorem total_add {t : Table key} {g g' : ρ → Nat} :
    (t.total fun r => g r + g' r) = t.total g + t.total g' := by
  unfold total
  induction t.rows with
  | nil => rfl
  | cons r rest ih =>
    simp only [List.map_cons, List.sum_cons, ih]
    omega

omit [DecidableEq κ] in
theorem total_update {t : Table key} {p : ρ → Bool} {f : ρ → ρ} {hf} {g : ρ → Nat} :
    (t.update p f hf).total g = t.total fun r => g (if p r then f r else r) := by
  simp only [total, update, List.map_map]
  rfl

omit [DecidableEq κ] in
/-- Rows that weigh nothing may be deleted. -/
theorem total_delete {t : Table key} {d : ρ → Bool} {g : ρ → Nat}
    (h : ∀ r ∈ t, d r = true → g r = 0) : (t.delete d).total g = t.total g := by
  unfold total delete
  rw [sum_filter]
  refine total_congr fun r hr => ?_
  cases hd : d r with
  | false => rfl
  | true => exact (h r hr hd).symm

theorem total_insert? {t t' : Table key} {r : ρ} {g : ρ → Nat} (h : t.insert? r = some t') :
    t'.total g = t.total g + g r := by
  unfold total
  rw [insert?_rows h]
  simp

/-- Rewriting one row moves the total by what that row weighs. -/
theorem total_modify {t : Table key} {q : ρ} {f : ρ → ρ} {hf} {g : ρ → Nat} (hq : q ∈ t) :
    (t.modify (key q) f hf).total g + g q = t.total g + g (f q) := by
  obtain ⟨pre, post, hrows⟩ := List.append_of_mem hq
  have hnodup := t.nodup
  rw [hrows, List.map_append, List.map_cons] at hnodup
  obtain ⟨_, hpost, hdisj⟩ := List.nodup_append.mp hnodup
  have hother : ∀ r, r ∈ pre ∨ r ∈ post → key r ≠ key q := by
    rintro r (hr | hr) he
    · exact hdisj _ (List.mem_map_of_mem hr) _ List.mem_cons_self he
    · exact (List.nodup_cons.mp hpost).1 (he ▸ List.mem_map_of_mem hr)
  have hsame : ∀ l : List ρ, (∀ r ∈ l, key r ≠ key q) →
      (l.map fun r => g (if decide (key r = key q) then f r else r)) = l.map g := by
    intro l hl
    apply List.map_congr_left
    intro r hr
    rw [decide_eq_false (hl r hr)]
    rfl
  unfold modify
  rw [total_update]
  simp only [total, hrows, List.map_append, List.map_cons, List.sum_append, List.sum_cons]
  rw [hsame pre fun r hr => hother r (Or.inl hr), hsame post fun r hr => hother r (Or.inr hr)]
  simp only [decide_true, if_true]
  omega

omit [DecidableEq κ] in
/-- Distinct keys of rows that weigh something are no more than the total. -/
theorem length_le_total {t : Table key} {g : ρ → Nat} {ks : List κ} (hn : ks.Nodup)
    (h : ∀ k ∈ ks, ∃ r ∈ t, key r = k ∧ 1 ≤ g r) : ks.length ≤ t.total g := by
  have hsub : ks ⊆ (t.rows.filter fun r => decide (1 ≤ g r)).map key := by
    intro k hk
    obtain ⟨r, hr, hkey, hg⟩ := h k hk
    exact List.mem_map.mpr ⟨r, List.mem_filter.mpr ⟨hr, by simpa using hg⟩, hkey⟩
  have hle := (List.Nodup.subperm hn hsub).length_le
  rw [List.length_map] at hle
  refine Nat.le_trans hle ?_
  unfold total
  generalize t.rows = rows
  induction rows with
  | nil => exact Nat.le_refl _
  | cons r rest ih =>
    rw [List.filter_cons, List.map_cons, List.sum_cons]
    split
    · rename_i hg
      rw [List.length_cons]
      have hg : 1 ≤ g r := by simpa using hg
      omega
    · omega

/-- An upsert whose row weighs nothing new leaves the total. -/
theorem total_upsert {t : Table key} {r : ρ} {f : ρ → ρ} {hf} {g : ρ → Nat} (hr : g r = 0)
    (hq : ∀ q ∈ t, key q = key r → g (f q) = g q) : (t.upsert r f hf).total g = t.total g := by
  unfold upsert
  cases h : t.insert? r with
  | some t' => simp only [total_insert? h, hr, Nat.add_zero]
  | none =>
    obtain ⟨q, hmem, hkey⟩ := insert?_eq_none h
    have htotal : (t.modify (key q) f hf).total g + g q = t.total g + g (f q) :=
      total_modify hmem
    rw [hq q hmem hkey, hkey] at htotal
    exact Nat.add_right_cancel htotal

/-- What one key weighs. -/
theorem total_key {t : Table key} {k : κ} {g : ρ → Nat} :
    (t.total fun r => if key r = k then g r else 0) = (t.find? k).elim 0 g := by
  have hzero (l : List ρ) (hl : ∀ r ∈ l, key r ≠ k) :
      (l.map fun r => if key r = k then g r else 0).sum = 0 := by
    induction l with
    | nil => rfl
    | cons r rest ih =>
      rw [List.map_cons, List.sum_cons, if_neg (hl r List.mem_cons_self),
        ih fun q hq => hl q (List.mem_cons_of_mem _ hq)]
  unfold total
  cases h : t.find? k with
  | none => exact hzero t.rows (find?_eq_none.mp h)
  | some q =>
    obtain ⟨hq, hkey⟩ := find?_eq_some.mp h
    obtain ⟨pre, post, hrows⟩ := List.append_of_mem hq
    have hnodup := t.nodup
    rw [hrows, List.map_append, List.map_cons] at hnodup
    obtain ⟨_, hpost, hdisj⟩ := List.nodup_append.mp hnodup
    have hpre : ∀ r ∈ pre, key r ≠ k := fun r hr he =>
      hdisj _ (List.mem_map_of_mem hr) _ List.mem_cons_self (he.trans hkey.symm)
    have hafter : ∀ r ∈ post, key r ≠ k := fun r hr he =>
      (List.nodup_cons.mp hpost).1 (he.trans hkey.symm ▸ List.mem_map_of_mem hr)
    rw [hrows, List.map_append, List.map_cons, List.sum_append, List.sum_cons, hzero pre hpre,
      hzero post hafter, if_pos hkey]
    simp

end Keyed
end Table
end FinDB.Lib
