import FinDB.Serve.Eod
import FinDB.Serve.Futures
import FinDB.Serve.Minute

/-! # Cursor pagination

Following `next_cursor` through each endpoint, from any first page it answers. -/
namespace FinDB.Serve
open FinDB.Lib

variable {cfg : Config} {ν : Type}

/-- **Pagination loses and repeats nothing.** From a first page an endpoint answers,
following its cursors is never refused, returns each row in scope once and in order,
and ends; also while rows are inserted, with the range of bars the first page found. -/
theorem cursor_pagination (d : Db cfg ν) :
    (∀ q : EodQuery, 1 ≤ q.pageSize → ∀ page, listEod q d none = .ok page →
      Paginates (listEod q) (·.pagination.nextCursor) (·.data) (·.pagination.pageSize = q.pageSize)
        EodBefore Grows (EodInScope q) d) ∧
    (∀ q : MinuteQuery, 1 ≤ q.pageSize → ∀ page, listMinute q d none = .ok page →
      Paginates (listMinute q) (·.page.pagination.nextCursor) (·.page.data)
        (fun page => ∀ range, firstRange d q = .ok (some range) → MinuteShows q range page)
        MinuteBefore Grows (MinuteInScope q d) d) ∧
    ∀ q : FuturesQuery, 1 ≤ q.pageSize → ∀ page, listFuturesEod q d none = .ok page →
      Paginates (listFuturesEod q) (·.pagination.nextCursor) (·.data)
        (·.pagination.pageSize = q.pageSize) FuturesBefore Grows (FuturesInScope q) d :=
  ⟨fun q hsize _ h => listEod_paginates q hsize d h,
    fun q hsize _ h => listMinute_paginates q hsize d h,
    fun q hsize _ h => listFuturesEod_paginates q hsize d h⟩

/-! ## Three tables -/

def asciiConfig : Config := { nfkc := id, strip := id, upper := id, taipeiDate := (·.date) }

def tradeDay (day : Nat) (h : 1 ≤ day ∧ day ≤ 28) : CivilDate :=
  ⟨2026, 1, day, by decide, by decide, h.1, le_trans h.2 (monthDays_bounds _ _).1⟩

/-- Two instruments, with two rows in each table. -/
def sampleDb : Db asciiConfig Unit where
  scopes := .ok [⟨"TW", "stock", .eod⟩, ⟨"TW", "stock", .minute⟩, ⟨"TW", "future", .futuresEod⟩]
  instruments := ⟨[⟨1, "stock", "TW", "2330", none⟩, ⟨2, "future", "TW", "TX", none⟩], by decide⟩
  eod := ⟨[⟨1, tradeDay 5 (by decide), ()⟩, ⟨1, tradeDay 6 (by decide), ()⟩], by decide⟩
  minute := ⟨[⟨1, tradeDay 5 (by decide), ⟨tradeDay 5 (by decide), 5400, 0, by decide⟩, ()⟩,
    ⟨1, tradeDay 5 (by decide), ⟨tradeDay 5 (by decide), 5460, 0, by decide⟩, ()⟩], by decide⟩
  contracts := ⟨[⟨3, 2, "TXF202601", none⟩], by decide⟩
  futures := ⟨[⟨4, 3, tradeDay 5 (by decide), "regular", ()⟩,
    ⟨5, 3, tradeDay 5 (by decide), "after_hours", ()⟩], by decide⟩
  localDate := by decide

theorem ok_of_isOk {ε α : Type} {x : Except ε α} (h : x.isOk = true) : ∃ a, x = .ok a := by
  cases x with
  | ok a => exact ⟨a, rfl⟩
  | error e => cases h

/-- One row a page in each table. -/
theorem cursor_pagination_sample :
    Paginates (@listEod asciiConfig Unit ⟨none, some "TW", none, none, none, 1⟩)
      (·.pagination.nextCursor) (·.data) (·.pagination.pageSize = 1) EodBefore Grows
      (EodInScope ⟨none, some "TW", none, none, none, 1⟩) sampleDb ∧
    Paginates (@listMinute asciiConfig Unit ⟨1, none, none, 1⟩)
      (·.page.pagination.nextCursor) (·.page.data)
      (fun page => ∀ range, firstRange sampleDb ⟨1, none, none, 1⟩ = .ok (some range) →
        MinuteShows ⟨1, none, none, 1⟩ range page)
      MinuteBefore Grows (MinuteInScope ⟨1, none, none, 1⟩ sampleDb) sampleDb ∧
    Paginates (@listFuturesEod asciiConfig Unit ⟨some "TX", none, none, none, none, 1⟩)
      (·.pagination.nextCursor) (·.data) (·.pagination.pageSize = 1) FuturesBefore Grows
      (FuturesInScope ⟨some "TX", none, none, none, none, 1⟩) sampleDb := by
  obtain ⟨eod, heod⟩ := ok_of_isOk (x := listEod ⟨none, some "TW", none, none, none, 1⟩ sampleDb none)
    (by decide +kernel)
  obtain ⟨minute, hminute⟩ := ok_of_isOk (x := listMinute ⟨1, none, none, 1⟩ sampleDb none)
    (by decide +kernel)
  obtain ⟨futures, hfutures⟩ := ok_of_isOk
    (x := listFuturesEod ⟨some "TX", none, none, none, none, 1⟩ sampleDb none) (by decide +kernel)
  exact ⟨(cursor_pagination sampleDb).1 _ (le_refl 1) eod heod,
    (cursor_pagination sampleDb).2.1 _ (le_refl 1) minute hminute,
    (cursor_pagination sampleDb).2.2 _ (le_refl 1) futures hfutures⟩

end FinDB.Serve
