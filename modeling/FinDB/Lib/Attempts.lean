import Mathlib.Data.List.Dedup
import Mathlib.Data.List.Perm.Subperm
import Mathlib.Data.List.MinMax
import Mathlib.Order.MinMax

/-! # Numbered parts, each with its attempts

A sequence is sent in parts `1 .. n`, each part any number of times. One reader keeps
the newest attempt of every part and looks at aggregates of what is left; another
keeps the attempts that succeeded. -/
namespace FinDB.Lib

/-! ## Numbers `1 .. n`, by their aggregates -/

/-- Exactly the numbers `1 .. n`. -/
def Numbered (n : Nat) (l : List Nat) : Prop := ∀ k, k ∈ l ↔ 1 ≤ k ∧ k ≤ n

variable {l : List Nat} {n : Nat}

theorem Numbered.perm (h : Numbered n l) (hn : l.Nodup) : l.Perm (List.range' 1 n) := by
  refine (List.perm_ext_iff_of_nodup hn (List.nodup_range' 1)).mpr fun k => ?_
  rw [h k, List.mem_range'_1]
  omega

/-- `n` different numbers between `1` and `n` are all of them. -/
theorem numbered_of_length (hn : l.Nodup) (hb : ∀ k ∈ l, 1 ≤ k ∧ k ≤ n) (hl : l.length = n) :
    Numbered n l := by
  have hsub : l ⊆ List.range' 1 n := fun k hk => by
    rw [List.mem_range'_1]
    have := hb k hk
    omega
  have hperm := (List.Nodup.subperm hn hsub).perm_of_length_le (by
    rw [List.length_range', hl])
  intro k
  rw [hperm.mem_iff, List.mem_range'_1]
  omega

/-- The set is told from the least, the greatest and how many there are. -/
theorem numbered_iff (hn : l.Nodup) (h0 : l ≠ []) :
    Numbered n l ↔ l.min? = some 1 ∧ l.max? = some n ∧ l.length = n := by
  constructor
  · intro h
    obtain ⟨k, hk⟩ := List.exists_mem_of_ne_nil l h0
    have hpos : 1 ≤ n := by
      have := (h k).mp hk
      omega
    refine ⟨List.min?_eq_some_iff.mpr ⟨(h 1).mpr ⟨le_rfl, hpos⟩, fun b hb => ((h b).mp hb).1⟩,
      List.max?_eq_some_iff.mpr ⟨(h n).mpr ⟨hpos, le_rfl⟩, fun b hb => ((h b).mp hb).2⟩, ?_⟩
    rw [(h.perm hn).length_eq, List.length_range']
  · rintro ⟨hmin, hmax, hl⟩
    refine numbered_of_length hn (fun k hk => ⟨?_, ?_⟩) hl
    · exact (List.min?_eq_some_iff.mp hmin).2 k hk
    · exact (List.max?_eq_some_iff.mp hmax).2 k hk

/-- One value, told from the least and how many there are. -/
theorem constant_iff {c : Nat} :
    l.min? = some c ∧ l.dedup.length = 1 ↔ l ≠ [] ∧ ∀ x ∈ l, x = c := by
  constructor
  · rintro ⟨hmin, hlen⟩
    obtain ⟨a, ha⟩ := List.length_eq_one_iff.mp hlen
    have hall : ∀ x ∈ l, x = a := fun x hx => List.mem_singleton.mp (ha ▸ List.mem_dedup.mpr hx)
    have hc := (List.min?_eq_some_iff.mp hmin).1
    exact ⟨List.ne_nil_of_mem hc, fun x hx => (hall x hx).trans (hall c hc).symm⟩
  · rintro ⟨h0, hall⟩
    obtain ⟨x, hx⟩ := List.exists_mem_of_ne_nil l h0
    have hc : c ∈ l := hall x hx ▸ hx
    refine ⟨List.min?_eq_some_iff.mpr ⟨hc, fun b hb => (hall b hb).ge⟩, ?_⟩
    have hd : l.dedup ⊆ [c] := fun x hx => List.mem_singleton.mpr (hall x (List.mem_dedup.mp hx))
    have hle := ((List.nodup_dedup l).subperm hd).length_le
    have hpos := List.length_pos_of_mem (List.mem_dedup.mpr hc)
    rw [List.length_singleton] at hle
    omega

/-! ## The newest attempt of every part -/

section
variable {ρ τ : Type} [LinearOrder τ] (part : ρ → Nat) (rank : ρ → τ)

/-- No attempt of the same part is newer. -/
def Newest (rows : List ρ) (r : ρ) : Prop :=
  r ∈ rows ∧ ∀ q ∈ rows, part q = part r → rank q ≤ rank r

variable {part rank} {rows : List ρ}

/-- Every part has a newest attempt. -/
theorem exists_newest {r : ρ} (hr : r ∈ rows) :
    ∃ q, Newest part rank rows q ∧ part q = part r := by
  have hmem : r ∈ rows.filter (part · = part r) := List.mem_filter.mpr ⟨hr, by simp⟩
  cases hmax : (rows.filter (part · = part r)).argmax rank with
  | none => exact absurd hmem (by rw [List.argmax_eq_none.mp hmax]; exact List.not_mem_nil)
  | some q =>
    obtain ⟨hq, hpart⟩ := List.mem_filter.mp (List.argmax_mem hmax)
    have hpart : part q = part r := of_decide_eq_true hpart
    refine ⟨q, ⟨hq, fun x hx he => ?_⟩, hpart⟩
    exact List.le_of_mem_argmax (List.mem_filter.mpr ⟨hx, by simpa using he.trans hpart⟩) hmax

/-- With different ranks it is the only one. -/
theorem Newest.unique {r q : ρ} (hr : Newest part rank rows r) (hq : Newest part rank rows q)
    (hrank : ∀ a ∈ rows, ∀ b ∈ rows, rank a = rank b → a = b) (h : part r = part q) : r = q :=
  hrank r hr.1 q hq.1 (le_antisymm (hq.2 r hr.1 h) (hr.2 q hq.1 h.symm))

/-! ## Two readers -/

variable (part rank) (count : ρ → Nat) (good : ρ → Prop) (rows)

/-- The newest attempts are good, declare `n`, and have the parts `1 .. n`. -/
def NewestNumbered (n : Nat) : Prop :=
  (∀ k, (∃ r ∈ rows, part r = k) ↔ 1 ≤ k ∧ k ≤ n) ∧
    ∀ r, Newest part rank rows r → count r = n ∧ good r

/-- The good attempts declare `n`, and have the parts `1 .. n`. -/
def GoodNumbered (n : Nat) : Prop :=
  (∃ r ∈ rows, good r) ∧ (∀ r ∈ rows, good r → count r = n) ∧
    ∀ k, (∃ r ∈ rows, good r ∧ part r = k) ↔ 1 ≤ k ∧ k ≤ n

variable {part rank count good rows}

/-- The two readers agree unless a newest attempt failed after the good ones were enough, or a
superseded good one declares another number. -/
theorem goodNumbered_iff_newestNumbered (h0 : rows ≠ []) :
    ((∃ n, GoodNumbered part rows count good n) ↔ ∃ n, NewestNumbered part rank rows count good n) ↔
      (∀ n, GoodNumbered part rows count good n → ∀ r, Newest part rank rows r → good r) ∧
      ∀ n, NewestNumbered part rank rows count good n → ∀ r ∈ rows, good r → count r = n := by
  obtain ⟨r₀, hr₀⟩ := List.exists_mem_of_ne_nil rows h0
  have hnewest : ∀ r ∈ rows, ∃ q, Newest part rank rows q ∧ part q = part r :=
    fun r hr => exists_newest hr
  constructor
  · intro h
    refine ⟨fun n hn r hr => ?_, fun n hn r hr hgood => ?_⟩
    · obtain ⟨m, -, hm⟩ := h.mp ⟨n, hn⟩
      exact (hm r hr).2
    · obtain ⟨m, -, hm, -⟩ := h.mpr ⟨n, hn⟩
      obtain ⟨q, hq, -⟩ := hnewest r₀ hr₀
      obtain ⟨hcount, hq'⟩ := hn.2 q hq
      rw [hm r hr hgood, ← hm q hq.1 hq', hcount]
  · rintro ⟨hlate, hconflict⟩
    constructor
    · rintro ⟨n, hn⟩
      refine ⟨n, fun k => ⟨?_, fun hk => ?_⟩, fun r hr => ?_⟩
      · rintro ⟨r, hr, rfl⟩
        obtain ⟨q, hq, hpart⟩ := hnewest r hr
        exact (hn.2.2 _).mp ⟨q, hq.1, hlate n hn q hq, hpart⟩
      · obtain ⟨r, hr, -, hpart⟩ := (hn.2.2 k).mpr hk
        exact ⟨r, hr, hpart⟩
      · exact ⟨hn.2.1 r hr.1 (hlate n hn r hr), hlate n hn r hr⟩
    · rintro ⟨n, hn⟩
      refine ⟨n, ?_, hconflict n hn, fun k => ⟨?_, fun hk => ?_⟩⟩
      · obtain ⟨q, hq, -⟩ := hnewest r₀ hr₀
        exact ⟨q, hq.1, (hn.2 q hq).2⟩
      · rintro ⟨r, hr, -, hpart⟩
        exact (hn.1 k).mp ⟨r, hr, hpart⟩
      · obtain ⟨r, hr, hpart⟩ := (hn.1 k).mpr hk
        obtain ⟨q, hq, hpart'⟩ := hnewest r hr
        exact ⟨q, hq.1, (hn.2 q hq).2, hpart'.trans hpart⟩

end
end FinDB.Lib
