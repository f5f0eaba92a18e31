import Mathlib
import FinDB.Lib.KeepBest
import FinDB.Canonical.Upserts

/-! # Precedence

Workers normalise the runs of different sources, and reruns of them, in any order.
What the guarded upserts leave in a slot does not depend on it: every slot is a cell
that keeps its best write, ranked by source priority and then by fetch time. Only the
columns of the first insert, `created_at` and the surrogate ids, remember the order. -/
namespace FinDB.Canonical
open FinDB.Lib

/-! ## The guard as an order -/

section Guard
variable {ι κ : Type}

/-- A smaller priority number ranks higher, then a later fetch; `NULL` is the earliest. -/
def Written.rank (w : Written κ) : ℤᵒᵈ ×ₗ WithBot ℕ :=
  toLex (OrderDual.toDual w.sourcePriority, w.sourceFetchedAt)

theorem incomingSourceWins_iff {table excluded : Written κ}
    (h : excluded.sourceFetchedAt.isSome = true) :
    incomingSourceWins table excluded = true ↔ table.rank ≤ excluded.rank := by
  obtain ⟨t, ht⟩ := Option.isSome_iff_exists.mp h
  unfold incomingSourceWins Written.rank
  rw [Prod.Lex.toLex_le_toLex, ht]
  simp only [Bool.or_eq_true, Bool.and_eq_true, decide_eq_true_eq, beq_iff_eq, Option.any_some]
  refine or_congr Iff.rfl (and_congr ⟨fun he => he.symm, fun he => he.symm⟩ ?_)
  cases table.sourceFetchedAt with
  | none => exact iff_of_true (Or.inl rfl) bot_le
  | some t' =>
    simp only [Option.isNone_some, Bool.false_eq_true, false_or, Option.any_some, decide_eq_true_eq]
    exact WithBot.coe_le_coe.symm

/-- An upsert is a guarded write of the columns it sets. -/
theorem upsert_written {stored : Option (Row ι κ)} {excluded : Row ι κ}
    (h : excluded.written.sourceFetchedAt.isSome = true) :
    some (upsert stored excluded).1.written =
      keepBest Written.rank (stored.map (·.written)) excluded.written := by
  cases stored with
  | none => rfl
  | some row =>
    by_cases hwins : incomingSourceWins row.written excluded.written = true
    · simp [upsert, keepBest, hwins, (incomingSourceWins_iff h).mp hwins]
    · have hrank : ¬ row.written.rank ≤ excluded.written.rank :=
        fun hle => hwins ((incomingSourceWins_iff h).mpr hle)
      simp only [upsert, keepBest, hwins, Option.map_some, if_neg hrank, Bool.false_eq_true,
        if_false]

theorem upsert_applied {stored : Option (Row ι κ)} {excluded : Row ι κ}
    (h : excluded.written.sourceFetchedAt.isSome = true) :
    (upsert stored excluded).2 = true ↔
      cellRank Written.rank (stored.map (·.written)) ≤ excluded.written.rank := by
  cases stored with
  | none => simp [upsert]
  | some row =>
    rw [Option.map_some, cellRank_some, WithBot.coe_le_coe, ← incomingSourceWins_iff h]
    cases hwins : incomingSourceWins row.written excluded.written <;> simp [upsert, hwins]

variable {S : Type} [DecidableEq S] {table : S → Option (Row ι κ)} {slot slot' : S}
  {excluded : Row ι κ}

/-- An upsert into a table, seen from one of its slots. -/
theorem update_written (h : excluded.written.sourceFetchedAt.isSome = true) :
    (Function.update table slot' (some (upsert (table slot') excluded).1) slot).map (·.written) =
      (if slot' = slot then some excluded.written else none).elim ((table slot).map (·.written))
        (keepBest Written.rank ((table slot).map (·.written))) := by
  by_cases hk : slot' = slot
  · rw [hk, Function.update_self, if_pos rfl]
    exact upsert_written h
  · rw [Function.update_of_ne (Ne.symm hk), if_neg hk]
    rfl

theorem update_applied {x : Written κ} (h : excluded.written.sourceFetchedAt.isSome = true)
    (hx : (if slot' = slot then some excluded.written else none) = some x) :
    (upsert (table slot') excluded).2 = true ↔
      cellRank Written.rank ((table slot).map (·.written)) ≤ x.rank := by
  split at hx
  · rename_i hk
    cases hx
    rw [hk]
    exact upsert_applied h
  · cases hx

end Guard

/-! ## Slots -/

/-- A canonical slot of any table. -/
inductive Slot where
  | eod (slot : EodSlot)
  | minute (slot : MinuteSlot)
  | futures (slot : FuturesSlot)
deriving DecidableEq, Repr

def Slot.Values : Slot → Type
  | .eod _ => EodValues
  | .minute _ => MinuteValues
  | .futures _ => FuturesValues

/-- What the slot holds, without the columns of the first insert. -/
def Slot.stored : (k : Slot) → Tables → Option (Written k.Values)
  | .eod slot, t => (t.eod slot).map (·.written)
  | .minute slot, t => (t.minute slot).map (·.written)
  | .futures slot, t => (t.futures slot).map (·.written)

/-- What a write brings to the slot, if it is for it. -/
def Slot.incoming : (k : Slot) → Write → Option (Written k.Values)
  | .eod slot, .eod ctx slot' values => if slot' = slot then some (ctx.written values) else none
  | .minute slot, .minute ctx slot' values =>
    if slot' = slot then some (ctx.written values) else none
  | .futures slot, .futures ctx slot' _ _ values =>
    if slot' = slot then some (ctx.written values) else none
  | _, _ => none

/-- One write, seen from one slot. -/
theorem stored_run (k : Slot) (w : Write) (t : Tables) :
    k.stored (w.run t).1 =
      (k.incoming w).elim (k.stored t) (keepBest Written.rank (k.stored t)) := by
  cases k with
  | eod slot =>
    cases w with
    | eod => exact update_written rfl
    | minute | futures => rfl
  | minute slot =>
    cases w with
    | minute => exact update_written rfl
    | eod | futures => rfl
  | futures slot =>
    cases w with
    | futures => exact update_written rfl
    | eod | minute => rfl

/-- A write is applied exactly when it is at least as good as what its slot holds. -/
theorem applied_iff {k : Slot} {w : Write} {x : Written k.Values} (h : k.incoming w = some x)
    (t : Tables) : (w.run t).2 = true ↔ cellRank Written.rank (k.stored t) ≤ x.rank := by
  cases k with
  | eod slot =>
    cases w with
    | eod => exact update_applied rfl h
    | minute | futures => cases h
  | minute slot =>
    cases w with
    | minute => exact update_applied rfl h
    | eod | futures => cases h
  | futures slot =>
    cases w with
    | futures => exact update_applied rfl h
    | eod | minute => cases h

/-- A run, seen from one slot. -/
theorem stored_runWrites (k : Slot) (ws : List Write) (t : Tables) :
    k.stored (runWrites ws t) =
      (ws.filterMap k.incoming).foldl (keepBest Written.rank) (k.stored t) := by
  induction ws generalizing t with
  | nil => rfl
  | cons w rest ih =>
    change k.stored (runWrites rest (w.run t).1) = _
    rw [ih, stored_run]
    cases hw : k.incoming w with
    | none => rw [List.filterMap_cons_none hw]; rfl
    | some x => rw [List.filterMap_cons_some hw]; rfl

theorem runWrites_append (pre post : List Write) (t : Tables) :
    runWrites (pre ++ post) t = runWrites post (runWrites pre t) := List.foldl_append

/-! ## Convergence -/

/-- A daily close of 10 from the first source and one of 11 from the second, each at its
own time. -/
def pairedCloses : Write × Write :=
  let config (fetched : Instant) : NormalizerConfig := ⟨id, .ranking ["a", "b"], .instant fetched⟩
  let close (price : Decimal) : EodValues := ⟨none, none, none, some price, none, none, none⟩
  (.eod ⟨config 5, some "a", 1, 100⟩ ⟨7, 39⟩ (close 10),
    .eod ⟨config 6, some "b", 2, 200⟩ ⟨7, 39⟩ (close 11))

end FinDB.Canonical
