import Mathlib.Algebra.Order.Ring.Rat
import Mathlib.Logic.Function.Basic
import FinDB.Vocabulary

/-! # The guarded upserts

A normalizer writes each row with `INSERT .. ON CONFLICT DO UPDATE .. WHERE`: an
empty slot takes the row, a filled one only when the incoming source wins. The
conflict clause sets every column but the key, the surrogate ids and `created_at`.
A write here is one that reaches the statement: the partition check and the table's
own CHECKs look at the incoming row alone and abort the transaction before it. -/
namespace FinDB.Canonical

abbrev Decimal := Rat

/-! ## Source control -/

/-- `dataset_config["source_precedence"]`. -/
inductive SourcePrecedence where
  | mapping (entries : List (String × Int))
  | ranking (sources : List String)
  | other
deriving DecidableEq, Repr

/-- `dataset_config["_ingest_fetched_at"]`; a text is parsed, if it can be. -/
inductive IngestFetchedAt where
  | absent
  | instant (at_ : Instant)
  | text (parsed : Option Instant)
deriving DecidableEq, Repr

/-- What a normalizer reads of its configuration. -/
structure NormalizerConfig where
  /-- `str.strip().lower()`. -/
  fold : String → String
  sourcePrecedence : SourcePrecedence
  ingestFetchedAt : IngestFetchedAt

/-- The priority of a source nobody ranks. -/
def unrankedPriority : Int := 1000

/-- `_source_control_values`. -/
def sourceControlValues (cfg : NormalizerConfig) (source : Option String) (now : Instant) :
    Int × Instant :=
  let normalized := cfg.fold (source.getD "")
  let priority := match cfg.sourcePrecedence with
    | .mapping entries => (entries.lookup normalized).getD unrankedPriority
    | .ranking sources =>
      let ranked := sources.map cfg.fold
      if normalized ∈ ranked then (ranked.idxOf normalized : Int) else unrankedPriority
    | .other => unrankedPriority
  match cfg.ingestFetchedAt with
  | .instant t => (priority, t)
  | .text (some t) => (priority, t)
  | .text none | .absent => (priority, now)

/-! ## Rows -/

/-- The columns the conflict clause sets. -/
structure Written (κ : Type) where
  values : κ
  source : Option String
  sourcePriority : Int
  sourceFetchedAt : Option Instant
  asofTs : Instant
  runId : Option Uuid
  updatedAt : Instant
deriving DecidableEq, Repr

/-- A stored row: `kept` are the other columns outside the key. -/
structure Row (ι κ : Type) where
  kept : ι
  createdAt : Instant
  written : Written κ
deriving DecidableEq, Repr

/-- `_incoming_source_wins`; comparing with `NULL` is not true. -/
def incomingSourceWins {κ : Type} (table excluded : Written κ) : Bool :=
  decide (excluded.sourcePriority < table.sourcePriority) ||
  (excluded.sourcePriority == table.sourcePriority &&
    (table.sourceFetchedAt.isNone ||
      excluded.sourceFetchedAt.any fun t => table.sourceFetchedAt.any fun t' => decide (t' ≤ t)))

/-- The statement on one slot, with whether it returned a row. -/
def upsert {ι κ : Type} (stored : Option (Row ι κ)) (excluded : Row ι κ) : Row ι κ × Bool :=
  match stored with
  | none => (excluded, true)
  | some row =>
    if incomingSourceWins row.written excluded.written then
      ({ row with written := excluded.written }, true)
    else (row, false)

/-! ## The tables -/

structure EodSlot where
  instrumentId : Uuid
  tradeDate : Date
deriving DecidableEq, Repr

structure EodValues where
  open_ : Option Decimal
  high : Option Decimal
  low : Option Decimal
  close : Option Decimal
  volume : Option Int
  totalTicks : Option Int
  turnover : Option Decimal
deriving DecidableEq, Repr

structure MinuteSlot where
  instrumentId : Uuid
  tradeDate : Date
  barStartTime : Instant
deriving DecidableEq, Repr

structure MinuteValues where
  barEndTime : Instant
  signalTime : Instant
  marketTimezone : Option Zone
  open_ : Option Decimal
  high : Option Decimal
  low : Option Decimal
  close : Option Decimal
  volume : Option Int
  turnover : Option Decimal
  tradeCount : Option Int
  priceAdjustment : Option String
deriving DecidableEq, Repr

/-- `uq_futures_contract`. -/
structure ContractSlot where
  instrumentId : Uuid
  contractCode : String
deriving DecidableEq, Repr

/-- The insert-only columns of a contract. -/
structure ContractKept where
  contractId : Uuid
  currency : String
deriving DecidableEq, Repr

inductive Session where
  | regular | afterHours
deriving DecidableEq, Repr

/-- `uq_futures_contract_eod_slot`, with the contract by its own unique key. -/
structure FuturesSlot where
  contract : ContractSlot
  tradeDate : Date
  session : Session
deriving DecidableEq, Repr

structure FuturesKept where
  id : Uuid
  contractId : Uuid
deriving DecidableEq, Repr

structure FuturesValues where
  open_ : Option Decimal
  high : Option Decimal
  low : Option Decimal
  close : Option Decimal
  volume : Option Int
  settlementPrice : Option Decimal
  openInterest : Option Int
deriving DecidableEq, Repr

/-- The canonical tables, by slot. -/
structure Tables where
  eod : EodSlot → Option (Row Unit EodValues)
  minute : MinuteSlot → Option (Row Unit MinuteValues)
  contracts : ContractSlot → Option (Row ContractKept String)
  futures : FuturesSlot → Option (Row FuturesKept FuturesValues)

def Tables.empty : Tables := ⟨fun _ => none, fun _ => none, fun _ => none, fun _ => none⟩

/-! ## The writers -/

/-- What every write carries: the configuration its run was given, and the clock. -/
structure WriteContext where
  cfg : NormalizerConfig
  source : Option String
  runId : Uuid
  now : Instant

/-- The columns a write brings. -/
def WriteContext.written {κ : Type} (ctx : WriteContext) (values : κ) : Written κ :=
  let control := sourceControlValues ctx.cfg ctx.source ctx.now
  ⟨values, ctx.source, control.1, some control.2, ctx.now, some ctx.runId, ctx.now⟩

/-- `upsert_eod`. -/
def upsertEod (ctx : WriteContext) (slot : EodSlot) (values : EodValues) (t : Tables) :
    Tables × Bool :=
  let r := upsert (t.eod slot) ⟨(), ctx.now, ctx.written values⟩
  ({ t with eod := Function.update t.eod slot (some r.1) }, r.2)

/-- `upsert_minute`. -/
def upsertMinute (ctx : WriteContext) (slot : MinuteSlot) (values : MinuteValues) (t : Tables) :
    Tables × Bool :=
  let r := upsert (t.minute slot) ⟨(), ctx.now, ctx.written values⟩
  ({ t with minute := Function.update t.minute slot (some r.1) }, r.2)

/-- The contract of a quote: the row that is there, also when the guard kept it. -/
def upsertContract (ctx : WriteContext) (slot : ContractSlot) (newId : Uuid) (month : String)
    (t : Tables) : Tables × Uuid :=
  let r := upsert (t.contracts slot) ⟨⟨newId, "TWD"⟩, ctx.now, ctx.written month⟩
  ({ t with contracts := Function.update t.contracts slot (some r.1) }, r.1.kept.contractId)

/-- The two upserts of `FuturesEODContractNormalizer.process` for one row. -/
def upsertFutures (ctx : WriteContext) (slot : FuturesSlot) (newIds : Uuid × Uuid) (month : String)
    (values : FuturesValues) (t : Tables) : Tables × Bool :=
  let c := upsertContract ctx slot.contract newIds.1 month t
  let r := upsert (c.1.futures slot) ⟨⟨newIds.2, c.2⟩, ctx.now, ctx.written values⟩
  ({ c.1 with futures := Function.update c.1.futures slot (some r.1) }, r.2)

/-- A write of any worker. -/
inductive Write where
  | eod (ctx : WriteContext) (slot : EodSlot) (values : EodValues)
  | minute (ctx : WriteContext) (slot : MinuteSlot) (values : MinuteValues)
  | futures (ctx : WriteContext) (slot : FuturesSlot) (newIds : Uuid × Uuid) (month : String)
      (values : FuturesValues)

/-- One write, with whether it was applied. -/
def Write.run : Write → Tables → Tables × Bool
  | .eod ctx slot values, t => upsertEod ctx slot values t
  | .minute ctx slot values, t => upsertMinute ctx slot values t
  | .futures ctx slot newIds month values, t => upsertFutures ctx slot newIds month values t

/-- Writes one after the other. -/
def runWrites (ws : List Write) (t : Tables) : Tables := ws.foldl (fun t w => (w.run t).1) t

end FinDB.Canonical
