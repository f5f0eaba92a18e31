/-! # Providers, clocks and statuses

The words every service shares. Instants are microseconds since the epoch in
UTC and dates are day numbers. The zone database is not part of the repository,
so `Clock` carries the two conversions the code takes from it. -/
namespace FinDB

abbrev Uuid := Nat
abbrev Instant := Nat
abbrev Date := Int
abbrev DatasetKey := String
abbrev MemberKey := String
abbrev Zone := String

/-- One second, minute and day on the instant scale. -/
def second : Nat := 1000000
def minute : Nat := 60 * second
def day : Nat := 24 * 60 * minute

/-- A wall-clock time of day. -/
def timeOfDay (hours minutes : Nat) : Nat := (hours * 60 + minutes) * minute

/-- A `datetime` as a caller sends it: `aware` tells whether it has a zone. -/
structure Stamp where
  at_ : Instant
  aware : Bool
deriving DecidableEq, Repr

inductive Provider where
  | twelveData | finlab | shioaji | taifex | factset
deriving DecidableEq, Repr

def Provider.name : Provider → String
  | .twelveData => "twelve_data"
  | .finlab => "finlab"
  | .shioaji => "shioaji"
  | .taifex => "taifex"
  | .factset => "factset"

inductive Kind where
  | daily | historical | maintenance | rerun
deriving DecidableEq, Repr

inductive Profile where
  | pilot | fullMarket
deriving DecidableEq, Repr

/-- `ingestion_run.status` and `normalization_job.status`. -/
inductive RunStatus where
  | queued | retrying | processing | completed | completedWithErrors | failed | cancelled
deriving DecidableEq, Repr

/-- `provider_work.TERMINAL_RUNS`: what settlement waits for. -/
def RunStatus.terminalRun : RunStatus → Bool
  | .completed | .completedWithErrors | .failed | .cancelled => true
  | .queued | .retrying | .processing => false

/-- `normalization_queue.TERMINAL_STATUSES`: what a worker never restarts. -/
def RunStatus.terminal : RunStatus → Bool
  | .completed | .completedWithErrors | .failed => true
  | .queued | .retrying | .processing | .cancelled => false

/-! ## The local clock -/

structure LocalTime where
  date : Date
  /-- Microseconds since local midnight. -/
  time : Nat
deriving DecidableEq, Repr

structure Clock where
  /-- `instant.astimezone(zone)`. -/
  localTime : Zone → Instant → LocalTime
  /-- `datetime.combine(date, time, zone)` as an instant. -/
  combine : Zone → Date → Nat → Instant

/-- `historical_backfill.PROVIDER_TIMEZONES`. -/
def providerTimezone : Provider → Zone
  | .twelveData => "America/New_York"
  | .finlab => "Asia/Taipei"
  | .shioaji => "Asia/Taipei"
  | .taifex => "Asia/Taipei"
  | .factset => "Asia/Hong_Kong"

structure DailyPolicy where
  timezone : Zone
  start : Nat
  stop : Nat
deriving DecidableEq, Repr

/-- `daily_runtime_policies` of the execution catalogue. -/
def dailyRuntimePolicy : Provider → Option DailyPolicy
  | .shioaji => some ⟨"Asia/Taipei", timeOfDay 18 0, timeOfDay 6 0⟩
  | _ => none

/-- The `open` flag of a policy at a local time: a window that ends before it
starts belongs to the day before until its end, and to the day after from it. -/
def DailyPolicy.opens (p : DailyPolicy) (time : Nat) : Bool :=
  let bounds : Int × Int :=
    if p.stop < p.start then
      if time < p.stop then ((p.start : Int) - day, p.stop) else (p.start, (p.stop : Int) + day)
    else (p.start, p.stop)
  decide (bounds.1 ≤ (time : Int) ∧ (time : Int) < bounds.2)

/-- `daily_window(provider, now)["open"]`. -/
def dailyWindow (clock : Clock) (provider : Provider) (now : Instant) : Bool :=
  match dailyRuntimePolicy provider with
  | none => true
  | some policy => policy.opens (clock.localTime policy.timezone now).time

end FinDB
