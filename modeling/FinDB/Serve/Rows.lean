import FinDB.Lib.Base64
import FinDB.Lib.Iso
import FinDB.Lib.Json
import FinDB.Lib.Keyset
import FinDB.Lib.Raise
import FinDB.Lib.Table

/-! # The canonical tables as Serve reads them

Keys and the columns a query filters, joins or orders by; the remaining columns of
a row are returned as they are and share one type. The minute table keeps its
CHECK: the trade date is the Taipei date of the bar. -/
namespace FinDB.Serve
open FinDB.Lib

/-- What a query raises: `serve_error(..)`, or a `ValueError` nobody catches. -/
inductive Err where
  | serve (statusCode : Nat) (code message : String)
  | value (message : String)
deriving DecidableEq, Repr

/-- The text functions of the language, and PostgreSQL's `AT TIME ZONE 'Asia/Taipei'`. -/
structure Config where
  nfkc : String → String
  strip : String → String
  upper : String → String
  taipeiDate : UtcTime → CivilDate

inductive DataKind where
  | eod | minute | futuresEod
deriving DecidableEq, Repr

/-- `ActiveDatasetScope`. -/
structure ActiveDatasetScope where
  market : String
  assetClass : String
  dataKind : DataKind
deriving DecidableEq, Repr

structure Instrument where
  instrumentId : Uuid128
  assetClass : String
  market : String
  symbol : String
  name : Option String
deriving DecidableEq

structure MarketDataEOD (ν : Type) where
  instrumentId : Uuid128
  tradeDate : CivilDate
  values : ν
deriving DecidableEq

def MarketDataEOD.key {ν : Type} (r : MarketDataEOD ν) : Uuid128 × CivilDate :=
  (r.instrumentId, r.tradeDate)

structure MarketDataMinute (ν : Type) where
  instrumentId : Uuid128
  tradeDate : CivilDate
  barStartTime : UtcTime
  values : ν
deriving DecidableEq

def MarketDataMinute.key {ν : Type} (r : MarketDataMinute ν) : Uuid128 × CivilDate × UtcTime :=
  (r.instrumentId, r.tradeDate, r.barStartTime)

structure FuturesContract where
  contractId : Uuid128
  instrumentId : Uuid128
  contractCode : String
  contractMonth : Option String
deriving DecidableEq

structure FuturesContractEOD (ν : Type) where
  id : Uuid128
  contractId : Uuid128
  tradeDate : CivilDate
  session : String
  values : ν
deriving DecidableEq

structure Db (cfg : Config) (ν : Type) where
  /-- `active_dataset_scopes(db)`. -/
  scopes : Except Err (List ActiveDatasetScope)
  instruments : Table Instrument.instrumentId
  eod : Table (MarketDataEOD.key (ν := ν))
  minute : Table (MarketDataMinute.key (ν := ν))
  contracts : Table FuturesContract.contractId
  futures : Table (FuturesContractEOD.id (ν := ν))
  localDate : ∀ r ∈ minute, r.tradeDate = cfg.taipeiDate r.barStartTime

variable {cfg : Config} {ν : Type}

/-- Rows may have been inserted since, and nothing else. -/
structure Grows (s t : Db cfg ν) : Prop where
  scopes : t.scopes = s.scopes
  instruments : ∀ r ∈ s.instruments, r ∈ t.instruments
  eod : ∀ r ∈ s.eod, r ∈ t.eod
  minute : ∀ r ∈ s.minute, r ∈ t.minute
  contracts : ∀ r ∈ s.contracts, r ∈ t.contracts
  futures : ∀ r ∈ s.futures, r ∈ t.futures

theorem Grows.refl (s : Db cfg ν) : Grows s s :=
  ⟨rfl, fun _ h => h, fun _ h => h, fun _ h => h, fun _ h => h, fun _ h => h⟩

/-- `_pairs(scopes, kind)`. -/
def pairs (scopes : List ActiveDatasetScope) (kind : DataKind) : List (String × String) :=
  (scopes.filter (·.dataKind == kind)).map fun scope => (scope.market, scope.assetClass)

def Instrument.pair (i : Instrument) : String × String := (i.market, i.assetClass)

end FinDB.Serve
