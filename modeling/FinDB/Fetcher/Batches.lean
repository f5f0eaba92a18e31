import Mathlib.Algebra.Ring.Int.Defs
import Mathlib.Algebra.BigOperators.Group.List.Basic
import FinDB.Lib.Packing
import FinDB.Lib.Raise

/-! # Batches of rows

The rows of a member are delivered in batches. The loop keeps an estimate of the size of the
open batch: two brackets and a separator behind each row. The estimate is one more than the
bytes of the batch, and the cut is greedy. -/
namespace FinDB.Fetcher.Batches
open FinDB.Lib

/-- The canonical encoding of a list, by the encodings of its items. -/
def arrayBytes (items : List (List UInt8)) : List UInt8 :=
  91 :: (List.intercalate [44] items ++ [93])

section
variable {Row : Type} (canonicalBytes : Row → List UInt8)

/-- The bytes a row adds to the estimate. -/
def rowSize (row : Row) : Int := (canonicalBytes row).length + 1

/-- The estimate of a batch. -/
def estimate (chunk : List Row) : Int := 2 + (chunk.map (rowSize canonicalBytes)).sum

/-- The loop's variables. -/
structure Cut (Row : Type) where
  result : List (List Row)
  chunk : List Row
  size : Int

variable (maxRows maxBytes : Int)

/-- One turn of the loop. -/
def splitRow (s : Cut Row) (row : Row) : Except String (Cut Row) := do
  ensure (!decide (maxBytes < rowSize canonicalBytes row + 2))
    "one provider row exceeds request byte bound"
  if s.chunk ≠ [] ∧ (maxRows ≤ s.chunk.length ∨ maxBytes < s.size + rowSize canonicalBytes row) then
    return ⟨s.result ++ [s.chunk], [row], 2 + rowSize canonicalBytes row⟩
  else
    return ⟨s.result, s.chunk ++ [row], s.size + rowSize canonicalBytes row⟩

/-- `split_rows`. -/
def splitRows (rows : List Row) : Except String (List (List Row)) := do
  ensure (decide (1 ≤ maxRows ∧ 1 ≤ maxBytes)) "batch bounds invalid"
  let s ← rows.foldlM (splitRow canonicalBytes maxRows maxBytes) ⟨[], [], 2⟩
  return if s.chunk.isEmpty then s.result else s.result ++ [s.chunk]

/-- A batch within the bounds, by the estimate. -/
def Fits (chunk : List Row) : Prop :=
  chunk.length ≤ maxRows ∧ estimate canonicalBytes chunk ≤ maxBytes

instance : DecidablePred (Fits canonicalBytes maxRows maxBytes) := fun _ =>
  inferInstanceAs (Decidable (_ ∧ _))

end

section
variable {Row : Type} {canonicalBytes : Row → List UInt8} {maxRows maxBytes : Int}

/-! ## The estimate -/

theorem estimate_append (xs ys : List Row) : estimate canonicalBytes (xs ++ ys) =
    estimate canonicalBytes xs + (ys.map (rowSize canonicalBytes)).sum := by
  unfold estimate
  rw [List.map_append, List.sum_append, Int.add_assoc]

theorem sum_rowSize_nonneg (xs : List Row) : 0 ≤ (xs.map (rowSize canonicalBytes)).sum := by
  induction xs with
  | nil => exact Int.le_refl 0
  | cons x xs ih =>
    rw [List.map_cons, List.sum_cons]
    unfold rowSize at ih ⊢
    omega

theorem hereditary_fits : Hereditary (Fits canonicalBytes maxRows maxBytes) := by
  constructor
  · rintro a b ⟨hrows, hbytes⟩
    have hb := @sum_rowSize_nonneg _ canonicalBytes b
    rw [estimate_append] at hbytes
    rw [List.length_append] at hrows
    exact ⟨by omega, by omega⟩
  · rintro a b ⟨hrows, hbytes⟩
    have ha := @sum_rowSize_nonneg _ canonicalBytes a
    rw [estimate_append] at hbytes
    rw [List.length_append] at hrows
    unfold estimate at hbytes
    exact ⟨by omega, by unfold estimate; omega⟩

/-- One separator is missing behind the last row. -/
theorem length_arrayBytes {chunk : List Row} (h : chunk ≠ []) :
    ((arrayBytes (chunk.map canonicalBytes)).length : Int) + 1 = estimate canonicalBytes chunk := by
  have hjoin : ∀ (x : Row) (xs : List Row),
      ((List.intercalate [44] ((x :: xs).map canonicalBytes)).length : Int) + 1 =
        ((x :: xs).map (rowSize canonicalBytes)).sum := by
    intro x xs
    induction xs generalizing x with
    | nil => simp [List.intercalate, rowSize]
    | cons y ys ih =>
      have htail := ih y
      simp only [List.intercalate, List.map_cons, List.intersperse_cons_cons, List.flatten_cons,
        List.length_append, List.length_singleton, List.sum_cons, Int.natCast_add] at htail ⊢
      unfold rowSize at htail ⊢
      omega
  obtain ⟨x, xs, rfl⟩ := List.exists_cons_of_ne_nil h
  have hsum := hjoin x xs
  unfold arrayBytes estimate
  rw [List.length_cons, List.length_append, List.length_singleton]
  omega

/-! ## The loop -/

/-- A row that no batch holds. -/
def TooLong (canonicalBytes : Row → List UInt8) (maxBytes : Int) (row : Row) : Prop :=
  maxBytes - 3 < (canonicalBytes row).length

theorem tooLong_iff {row : Row} :
    TooLong canonicalBytes maxBytes row ↔ maxBytes < rowSize canonicalBytes row + 2 := by
  unfold TooLong rowSize
  omega

/-- The turn of a row that is not too long. -/
def nextCut (canonicalBytes : Row → List UInt8) (maxRows maxBytes : Int) (s : Cut Row) (row : Row) :
    Cut Row :=
  if s.chunk ≠ [] ∧ ¬ Fits canonicalBytes maxRows maxBytes (s.chunk ++ [row]) then
    ⟨s.result ++ [s.chunk], [row], estimate canonicalBytes [row]⟩
  else ⟨s.result, s.chunk ++ [row], estimate canonicalBytes (s.chunk ++ [row])⟩

theorem splitRow_eq {s : Cut Row} (hsize : s.size = estimate canonicalBytes s.chunk) (row : Row) :
    splitRow canonicalBytes maxRows maxBytes s row =
      if maxBytes < rowSize canonicalBytes row + 2 then
        .error "one provider row exceeds request byte bound"
      else .ok (nextCut canonicalBytes maxRows maxBytes s row) := by
  have hone : estimate canonicalBytes [row] = 2 + rowSize canonicalBytes row := by
    simp [estimate]
  have hmore : estimate canonicalBytes (s.chunk ++ [row]) =
      s.size + rowSize canonicalBytes row := by
    rw [estimate_append, hsize]
    simp
  -- the loop closes the batch when the row does not fit
  have hclose : (maxRows ≤ s.chunk.length ∨ maxBytes < s.size + rowSize canonicalBytes row) ↔
      ¬ Fits canonicalBytes maxRows maxBytes (s.chunk ++ [row]) := by
    unfold Fits
    rw [hmore, List.length_append, List.length_singleton]
    omega
  unfold splitRow nextCut
  simp only [hclose, hone, hmore]
  by_cases hlong : maxBytes < rowSize canonicalBytes row + 2
  · simp only [hlong, decide_true, Bool.not_true, if_true]
    rfl
  · simp only [hlong, decide_false, Bool.not_false, if_false]
    split
    · rfl
    · rfl

theorem size_nextCut (s : Cut Row) (row : Row) :
    (nextCut canonicalBytes maxRows maxBytes s row).size =
      estimate canonicalBytes (nextCut canonicalBytes maxRows maxBytes s row).chunk := by
  unfold nextCut
  split <;> rfl

/-- The loop fails on a row that is too long, and else packs the rows. -/
theorem foldlM_splitRow {s : Cut Row} (hsize : s.size = estimate canonicalBytes s.chunk)
    (rows : List Row) :
    (∃ t, rows.foldlM (splitRow canonicalBytes maxRows maxBytes) s = .ok t ∧
      (∀ row ∈ rows, ¬ TooLong canonicalBytes maxBytes row) ∧
      (if t.chunk.isEmpty then t.result else t.result ++ [t.chunk]) =
        s.result ++ pack (Fits canonicalBytes maxRows maxBytes) s.chunk rows) ∨
    (∃ e, rows.foldlM (splitRow canonicalBytes maxRows maxBytes) s = .error e) ∧
      ∃ row ∈ rows, TooLong canonicalBytes maxBytes row := by
  induction rows generalizing s with
  | nil =>
    refine .inl ⟨s, rfl, fun row hrow => absurd hrow List.not_mem_nil, ?_⟩
    unfold pack
    split
    · rw [List.append_nil]
    · rfl
  | cons row rows ih =>
    rw [List.foldlM_cons, splitRow_eq hsize]
    by_cases hlong : maxBytes < rowSize canonicalBytes row + 2
    · rw [if_pos hlong]
      exact .inr ⟨⟨_, rfl⟩, row, List.mem_cons_self, tooLong_iff.mpr hlong⟩
    · rw [if_neg hlong]
      rcases ih (size_nextCut s row) with ⟨t, hrun, hshort, hresult⟩ | ⟨herror, r, hr, hlong'⟩
      · refine .inl ⟨t, hrun, List.forall_mem_cons.mpr ⟨fun h => hlong (tooLong_iff.mp h), hshort⟩, ?_⟩
        rw [hresult]
        unfold nextCut
        rw [pack]
        split
        · rw [List.append_assoc, List.singleton_append]
        · rfl
      · exact .inr ⟨herror, r, List.mem_cons_of_mem _ hr, hlong'⟩

/-- A row that is not too long fits alone. -/
theorem fits_single (hrows : 1 ≤ maxRows) {row : Row} (h : ¬ TooLong canonicalBytes maxBytes row) :
    Fits canonicalBytes maxRows maxBytes [row] := by
  rw [tooLong_iff] at h
  have hone : estimate canonicalBytes [row] = 2 + rowSize canonicalBytes row := by
    simp [estimate]
  exact ⟨hrows, by omega⟩

/-! ## The cut -/

/-- What the rows are cut into. -/
structure Tight (canonicalBytes : Row → List UInt8) (maxRows maxBytes : Int) (rows : List Row)
    (chunks : List (List Row)) : Prop where
  inOrder : chunks.flatten = rows
  nonempty : ∀ chunk ∈ chunks, chunk ≠ []
  rowBound : ∀ chunk ∈ chunks, chunk.length ≤ maxRows
  byteBound : ∀ chunk ∈ chunks, (arrayBytes (chunk.map canonicalBytes)).length ≤ maxBytes
  fewest : ∀ parts : List (List Row), parts.flatten = rows →
    (∀ part ∈ parts, Fits canonicalBytes maxRows maxBytes part) → chunks.length ≤ parts.length

theorem tight_pack (hrows : 1 ≤ maxRows) {rows : List Row}
    (hshort : ∀ row ∈ rows, ¬ TooLong canonicalBytes maxBytes row) :
    Tight canonicalBytes maxRows maxBytes rows
      (pack (Fits canonicalBytes maxRows maxBytes) [] rows) := by
  have hmem : ∀ chunk ∈ pack (Fits canonicalBytes maxRows maxBytes) [] rows,
      chunk ≠ [] ∧ Fits canonicalBytes maxRows maxBytes chunk := fun chunk hchunk =>
    fits_of_mem_pack (fun row hrow => fits_single hrows (hshort row hrow)) (.inl rfl) hchunk
  refine ⟨flatten_pack [] rows, fun chunk h => (hmem chunk h).1, fun chunk h => (hmem chunk h).2.1,
    fun chunk h => ?_, fun parts hparts hfits => ?_⟩
  · have hsize := @length_arrayBytes _ canonicalBytes _ (hmem chunk h).1
    have hfits := (hmem chunk h).2.2
    omega
  · rw [← hparts]
    exact length_pack_le hereditary_fits hfits

/-- The rows are refused for one that is too long, and else cut tightly. -/
theorem splitRows_tight (canonicalBytes : Row → List UInt8) (maxRows maxBytes : Int)
    (hbounds : 1 ≤ maxRows ∧ 1 ≤ maxBytes) (rows : List Row) :
    ((∃ e, splitRows canonicalBytes maxRows maxBytes rows = .error e) ↔
      ∃ row ∈ rows, maxBytes - 3 < (canonicalBytes row).length) ∧
    ∀ chunks, splitRows canonicalBytes maxRows maxBytes rows = .ok chunks →
      Tight canonicalBytes maxRows maxBytes rows chunks := by
  have hrun : splitRows canonicalBytes maxRows maxBytes rows =
      (rows.foldlM (splitRow canonicalBytes maxRows maxBytes) ⟨[], [], 2⟩).map fun s =>
        if s.chunk.isEmpty then s.result else s.result ++ [s.chunk] := by
    unfold splitRows
    rw [decide_eq_true hbounds]
    cases rows.foldlM (splitRow canonicalBytes maxRows maxBytes) ⟨[], [], 2⟩ <;> rfl
  rw [hrun]
  rcases foldlM_splitRow (s := ⟨[], [], 2⟩) (by rfl) rows with
    ⟨t, hok, hshort, hresult⟩ | ⟨⟨e, herror⟩, hlong⟩
  · rw [hok]
    refine ⟨iff_of_false (fun ⟨_, h⟩ => by cases h) fun ⟨row, hrow, h⟩ => hshort row hrow h, ?_⟩
    intro chunks hchunks
    cases hchunks
    dsimp only
    rw [hresult, List.nil_append]
    exact tight_pack hbounds.1 hshort
  · rw [herror]
    exact ⟨iff_of_true ⟨e, rfl⟩ hlong, fun chunks h => by cases h⟩

/-- Three rows of two bytes in batches of ten bytes. -/
theorem splitRows_tight_bytes :
    ((∃ e, splitRows (fun n : UInt8 => [n, n]) 5 10 [1, 2, 3] = .error e) ↔
      ∃ row ∈ [(1 : UInt8), 2, 3], (10 : Int) - 3 < ([row, row] : List UInt8).length) ∧
    ∀ chunks, splitRows (fun n : UInt8 => [n, n]) 5 10 [1, 2, 3] = .ok chunks →
      Tight (fun n : UInt8 => [n, n]) 5 10 [1, 2, 3] chunks :=
  splitRows_tight (fun n : UInt8 => [n, n]) 5 10 (by decide) [1, 2, 3]

end

end FinDB.Fetcher.Batches
