import FinDB.Lib.Iso
import FinDB.Lib.Json
import FinDB.Lib.Machine
import FinDB.Lib.Table
import FinDB.Vocabulary

/-! # Observations of one symbol and day

A daily work may ask Shioaji for the bars of a symbol only so often. A probe is reserved
before the native call and counts until something is known about it; its outcome is
rewritten by the snapshot, by a failure of the decoder, by a wait that was proven, or by the
gateway when the command was never sent. -/
namespace FinDB.Fetcher.Observation
open FinDB.Lib

/-! ## The journal -/

/-- `RETRY_SECONDS`. -/
def retrySeconds : Nat := 900 * second

/-- `PROBE_LIMIT`. -/
def probeLimit : Nat := 3

inductive Outcome where
  | unknown | empty | valid | invalid | predispatch
deriving DecidableEq, Repr

/-- `outcome IN ('unknown','empty')`. -/
def Outcome.counted : Outcome → Bool
  | .unknown | .empty => true
  | .valid | .invalid | .predispatch => false

/-- The two key columns of both tables. -/
structure Operation where
  workKey : String
  operationKey : String
deriving DecidableEq, Repr

structure Grant where
  operation : Operation
  grantId : String
  maximum : Nat
deriving DecidableEq, Repr

def Grant.key (g : Grant) : Operation × String := (g.operation, g.grantId)

structure Probe where
  probeId : Nat
  operation : Operation
  grantId : String
  reservedAt : Instant
  outcome : Outcome
deriving DecidableEq, Repr

/-- `work_shioaji_grant` and `work_shioaji_probe`. -/
structure Journal where
  grants : Table Grant.key
  probes : Table Probe.probeId

/-- `operation_key`. -/
def operationKey (symbol : String) (day : CivilDate) : String :=
  String.ofList (Json.arr [.str symbol, .str day.isoformat]).dumps

namespace Journal

variable (j : Journal)

def grantsOf (op : Operation) : List Grant := j.grants.rows.filter (·.operation == op)

def probesOf (op : Operation) : List Probe := j.probes.rows.filter (·.operation == op)

/-- The counted probes of a grant. -/
def counted (op : Operation) (grantId : String) : List Probe :=
  (j.probesOf op).filter fun p => p.grantId == grantId && p.outcome.counted

/-- `MAX(reserved_at)` of the counted probes. -/
def lastReserved (op : Operation) : Option Instant :=
  (((j.probesOf op).filter (·.outcome.counted)).map (·.reservedAt)).max?

/-- `INSERT OR IGNORE`. -/
def addGrant (g : Grant) : Journal := { j with grants := j.grants.insertNew g }

/-- The key SQLite gives the next row. -/
def nextProbeId : Nat := (j.probes.rows.map (·.probeId)).max?.getD 0 + 1

def addProbe (op : Operation) (grantId : String) (now : Instant) (outcome : Outcome) : Journal :=
  { j with probes := j.probes.insertNew ⟨j.nextProbeId, op, grantId, now, outcome⟩ }

/-- `UPDATE ... WHERE probe_id=?`, of rows that pass `p`. -/
def setProbe (probeId : Nat) (p : Outcome → Bool) (outcome : Outcome) (now : Option Instant) :
    Journal :=
  { j with
    probes := j.probes.update (fun r => decide (r.probeId = probeId) && p r.outcome)
      fun r => { r with outcome, reservedAt := now.getD r.reservedAt } }

/-- `... AND outcome='unknown'`. -/
def setUnknown (probeId : Nat) (outcome : Outcome) (now : Option Instant) : Journal :=
  j.setProbe probeId (· == .unknown) outcome now

end Journal

/-! ## Grants -/

structure Repair where
  repairId : String
  providerSymbol : String
  observationLimit : Nat
deriving DecidableEq, Repr

/-- `install_grant`. -/
def installGrant (workKey : String) (repair : Repair) (day : CivilDate) (j : Journal) : Journal :=
  let op := ⟨workKey, operationKey repair.providerSymbol day⟩
  (j.addGrant ⟨op, "initial", probeLimit⟩).addGrant ⟨op, repair.repairId, repair.observationLimit⟩

/-! ## The guard -/

/-- `ShioajiObservationWaitError`. -/
structure Wait where
  delay : Nat
  exhausted : Bool
  observedEmpty : Bool
deriving DecidableEq, Repr

/-- A rejected empty snapshot of an older cache is a probe too, the first of its operation. -/
def Journal.importCache (j : Journal) (op : Operation) (rejectedEmpty : Bool) (now : Instant) :
    Journal :=
  if rejectedEmpty && (j.probesOf op).isEmpty then j.addProbe op "initial" now .empty else j

/-- The answer from the latest grant and the probes there are. -/
def Journal.grantOrWait (j : Journal) (op : Operation) (grant : Grant) (now : Instant) :
    Except Wait String :=
  let observedEmpty := (j.probesOf op).any (·.outcome == .empty)
  if grant.maximum ≤ (j.counted op grant.grantId).length then .error ⟨0, true, observedEmpty⟩
  else
    match j.lastReserved op with
    | none => .ok grant.grantId
    | some last =>
      -- A last reservation at the epoch itself is false in Python.
      if last ≠ 0 ∧ now < last + retrySeconds then
        .error ⟨last + retrySeconds - now, false, observedEmpty⟩
      else .ok grant.grantId

/-- The first transaction of `observation_guard`, and the grant to reserve under or a wait. -/
def check (op : Operation) (rejectedEmpty : Bool) (now : Instant) (j : Journal) :
    Journal × Except Wait String :=
  let granted := j.addGrant ⟨op, "initial", probeLimit⟩
  match (granted.grantsOf op).getLast? with
  | none => (granted, .error ⟨0, true, false⟩)
  | some grant =>
    let imported := granted.importCache op rejectedEmpty now
    (imported, imported.grantOrWait op grant now)

/-- What leaves the guarded call, as far as the guard tells them apart. -/
inductive Failure where
  | acquisitionStopped | sourceUnavailable
  | quotaBlocked (quotaWait dispatched : Bool)
  /-- `ShioajiSdkError` of code `PAYLOAD`; `reviewed` when its reason is one of the format. -/
  | payload (reviewed : Bool)
  | other
deriving DecidableEq, Repr

/-- The wait was proven before anything was sent. -/
def Failure.provenWait : Failure → Bool
  | .acquisitionStopped | .sourceUnavailable => true
  | .quotaBlocked quotaWait dispatched => quotaWait && !dispatched
  | .payload _ | .other => false

/-- The except clause of the guard. -/
def settle (failure : Failure) (probeId : Nat) (undispatched : Bool) (now : Instant) (j : Journal) :
    Journal :=
  if failure = .payload true then j.setUnknown probeId .invalid (some now)
  else if failure.provenWait && undispatched then j.setUnknown probeId .predispatch none
  else j.setUnknown probeId .unknown (some now)

/-- `record_kbars_not_dispatched`. -/
def recordKbarsNotDispatched (probeId : Nat) (j : Journal) : Journal :=
  j.setUnknown probeId .predispatch none

/-- A snapshot by the two predicates that are asked of it. -/
structure Snapshot where
  emptyKbars : Bool
  targetValid : Bool
deriving DecidableEq, Repr

def Snapshot.outcome (s : Snapshot) : Outcome :=
  if s.emptyKbars then .empty else if s.targetValid then .valid else .invalid

/-- `observe_snapshot`. -/
def observeSnapshot (snapshot : Snapshot) (probeId : Nat) (now : Instant) (j : Journal) : Journal :=
  j.setProbe probeId (fun _ => true) snapshot.outcome (some now)

/-! ## The owner of a work -/

/-- How a native command ended: what `Acquisition.__exit__` knows of its start, and what it
raised. -/
structure NativeRun where
  started : Bool
  possiblyStarted : Bool
  failure : Option Failure
deriving DecidableEq, Repr

def NativeRun.dispatched (r : NativeRun) : Bool := r.started || r.possiblyStarted

/-- Where a guarded call stands. -/
inductive Phase where
  /-- Between the check and the reservation. -/
  | checked (generation : String) (now : Instant)
  /-- The probe is reserved; the session is created, logged in and loaded. -/
  | bootstrap (probeId : Nat)
  /-- The bars are requested. -/
  | fetching (probeId : Nat)
  /-- The answer has arrived and is decoded. -/
  | fetched (probeId : Nat)
  | observed (probeId : Nat)
  /-- An exception is on its way to the except clause. -/
  | raising (probeId : Nat) (failure : Failure)
deriving DecidableEq, Repr

def Phase.probe? : Phase → Option Nat
  | .checked .. => none
  | .bootstrap id | .fetching id | .fetched id | .observed id | .raising id _ => some id

/-- A guarded call. -/
structure Call where
  operation : Operation
  phase : Phase
  /-- `dispatch_observations` when the call reserved. -/
  dispatched : Nat
deriving DecidableEq, Repr

/-- The owner of a work: its process, while it has one. -/
structure Owner where
  dispatchObservations : Nat
  call : Option Call
deriving DecidableEq, Repr

/-- The journal file, the clock of the host and the owners. `uncertain` is no part of the
program: the probes whose bars may have been requested, because a dispatch was observed or
because the process ended after the reservation. -/
structure State where
  journal : Journal
  clock : Instant
  clock_pos : 0 < clock
  owners : String → Owner
  uncertain : List Nat

/-- An empty journal, at some time after the epoch. -/
def State.init (clock : Instant) (h : 0 < clock) : State :=
  ⟨⟨.empty, .empty⟩, clock, h, fun _ => ⟨0, none⟩, []⟩

/-- The arguments of `fetch_kbars`. -/
structure Arguments where
  symbol : String
  targetDate : CivilDate
deriving DecidableEq

/-- The operation a work asks for. -/
def Arguments.operation (workKey : String) (a : Arguments) : Operation :=
  ⟨workKey, operationKey a.symbol a.targetDate⟩

inductive Op where
  | tick (now : Instant)
  | installGrant (workKey : String) (repair : Repair) (day : CivilDate)
  | enter (workKey : String) (arguments : Arguments) (rejectedEmpty : Bool)
  /-- The calendar or the authorization refuses. -/
  | refuse (workKey : String)
  | reserve (workKey : String)
  /-- A command of the bootstrap, or the check of the symbol. -/
  | bootstrapRun (workKey : String) (run : NativeRun)
  | bootstrapped (workKey : String)
  | kbars (workKey : String) (run : NativeRun)
  /-- Anything else of the body fails: a write to the journal, the decoder, the snapshot. -/
  | fail (workKey : String) (failure : Failure)
  | observe (workKey : String) (snapshot : Snapshot)
  /-- The call returns, or its except clause could not write. -/
  | leave (workKey : String)
  | except (workKey : String)
  | crash (workKey : String)

namespace State

variable (s : State)

def setOwner (workKey : String) (o : Owner) : State :=
  { s with owners := Function.update s.owners workKey o }

def setCall (workKey : String) (call : Option Call) : State :=
  s.setOwner workKey { s.owners workKey with call }

/-- `Acquisition.__exit__` counts what may have reached the provider. -/
def exit (workKey : String) (run : NativeRun) : State :=
  s.setOwner workKey { s.owners workKey with
    dispatchObservations := (s.owners workKey).dispatchObservations + run.dispatched.toNat }

def mark (probeId : Nat) (uncertain : Bool) : State :=
  { s with uncertain := if uncertain then probeId :: s.uncertain else s.uncertain }

/-- Nobody has proven that the bars were not requested. -/
def unproven (probeId : Nat) : Bool :=
  (s.journal.probes.find? probeId).any (·.outcome != .predispatch)

/-- The owner makes a guarded call; it makes one at a time. -/
def enter (workKey : String) (arguments : Arguments) (rejectedEmpty : Bool) : State :=
  match (s.owners workKey).call with
  | some _ => s
  | none =>
    match check (arguments.operation workKey) rejectedEmpty s.clock s.journal with
    | (journal, .error _) => { s with journal }
    | (journal, .ok generation) =>
      { s with journal }.setCall workKey
        (some ⟨arguments.operation workKey, .checked generation s.clock, 0⟩)

/-- The process of a work ends. -/
def crash (workKey : String) : State :=
  match (s.owners workKey).call.bind (·.phase.probe?) with
  | none => s.setOwner workKey ⟨0, none⟩
  | some id => (s.setOwner workKey ⟨0, none⟩).mark id (s.unproven id)

end State

/-- The guarded call of a work, at its phase; operations it is not at change nothing. -/
def callStep (op : Op) (workKey : String) (c : Call) (s : State) : State :=
  match op, c.phase with
  | .refuse _, .checked .. => s.setCall workKey none
  | .reserve _, .checked generation now =>
    { s with journal := s.journal.addProbe c.operation generation now .unknown }.setCall workKey
      (some ⟨c.operation, .bootstrap s.journal.nextProbeId,
        (s.owners workKey).dispatchObservations⟩)
  | .bootstrapRun _ run, .bootstrap id =>
    match run.failure with
    | none => s.exit workKey run
    | some failure =>
      let s := s.exit workKey run
      { s with journal := recordKbarsNotDispatched id s.journal }.setCall workKey
        (some { c with phase := .raising id failure })
  | .bootstrapped _, .bootstrap id => s.setCall workKey (some { c with phase := .fetching id })
  | .kbars _ run, .fetching id =>
    ((s.exit workKey run).mark id run.dispatched).setCall workKey (some { c with
      phase := match run.failure with
        | none => .fetched id
        | some failure => .raising id failure })
  | .fail _ failure, .bootstrap id | .fail _ failure, .fetched id | .fail _ failure, .observed id =>
    s.setCall workKey (some { c with phase := .raising id failure })
  | .observe _ snapshot, .fetched id =>
    { s with journal := observeSnapshot snapshot id s.clock s.journal }.setCall workKey
      (some { c with phase := .observed id })
  | .leave _, .observed _ | .leave _, .raising .. => s.setCall workKey none
  | .except _, .raising id failure =>
    { s with
      journal := settle failure id (decide ((s.owners workKey).dispatchObservations = c.dispatched))
        s.clock s.journal }.setCall workKey none
  | _, _ => s

def Op.workKey? : Op → Option String
  | .tick _ | .installGrant .. | .enter .. | .crash _ => none
  | .refuse w | .reserve w | .bootstrapRun w _ | .bootstrapped w | .kbars w _ | .fail w _
  | .observe w _ | .leave w | .except w => some w

def apply (op : Op) (s : State) : State :=
  match op with
  | .tick now =>
    { s with
      clock := max s.clock now
      clock_pos := Nat.lt_of_lt_of_le s.clock_pos (Nat.le_max_left ..) }
  | .installGrant workKey repair day =>
    { s with journal := installGrant workKey repair day s.journal }
  | .enter workKey arguments rejectedEmpty => s.enter workKey arguments rejectedEmpty
  | .crash workKey => s.crash workKey
  | op =>
    match op.workKey? with
    | none => s
    | some workKey =>
      match (s.owners workKey).call with
      | none => s
      | some c => callStep op workKey c s

/-- Any finite sequence of operations. -/
def Reachable (s : State) : Prop :=
  ∃ clock h, StepsIf apply (fun _ _ => True) (.init clock h) s

end FinDB.Fetcher.Observation
