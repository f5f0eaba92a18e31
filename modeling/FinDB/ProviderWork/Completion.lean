import Mathlib.Data.List.Infix
import FinDB.ProviderWork.Queue

/-! # What proves a completion

An EOD v2 work is completed or partial by one evidence document that accounts
for every frozen member, checked here against four durable facts: the member
evidence of the work's own runs, their data-quality issues, the plan's recorded
no-data outcomes and the frozen manifest. Every other work is completed by its
receipts alone. -/
namespace FinDB.ProviderWork
open FinDB.Lib

/-! ## The evidence schema -/

def isHex (c : Char) : Bool := ('0' ≤ c ∧ c ≤ '9') || ('a' ≤ c ∧ c ≤ 'f')

/-- `needle in text`. -/
def contains (needle text : String) : Bool := decide (needle.toList <:+: text.toList)

/-- `EODRawEvidence`: immutable, content-addressed raw bytes. -/
def EODRawEvidence.valid (e : EODRawEvidence) : Bool :=
  let ref := e.ref.toList
  decide (1 ≤ ref.length ∧ ref.length ≤ 2048) &&
  "r2://".toList.isPrefixOf ref && decide (((ref.drop 5).take 32).length = 32) &&
  ((ref.drop 5).take 32).all isHex && (ref.drop 37).head? == some '/' &&
  decide (e.sha256.toList.length = 64) && e.sha256.toList.all isHex &&
  ["?", "#", "@", "%", "\\", "/../"].all (fun bad => !contains bad e.ref) &&
  ("/" ++ e.sha256 ++ ".json").toList.isSuffixOf ref

/-- `EODMemberResult`. -/
def EODMemberResult.valid (m : EODMemberResult) : Bool :=
  decide (1 ≤ m.memberKey.length ∧ m.memberKey.length ≤ 150) && m.raw.all (·.valid)

def EODCompletionEvidence.keys (e : EODCompletionEvidence) : List MemberKey :=
  e.members.map (·.memberKey)

/-- `EODCompletionEvidence.model_validate` accepts the document. -/
def EODCompletionEvidence.valid (e : EODCompletionEvidence) : Bool :=
  e.version == 2 && e.schemaId == "market_eod" && e.schemaVersion == 2 &&
  decide (1 ≤ e.members.length ∧ e.members.length ≤ 10000) && e.members.all (·.valid) &&
  decide e.keys.Nodup

/-! ## The durable facts -/

def Work.runIds (s : Db) (work : Work) : List Uuid := (s.receiptsOf work.workId).map (·.runId)

/-- Members that this work's own runs wrote: `delivery_member_evidence`. -/
def Work.written (s : Db) (work : Work) : List MemberKey :=
  (s.evidence.filter fun e => (work.runIds s).contains e.1).map (·.2)

/-- `dq_issue` rows of severity error of this work's runs. -/
def Work.errorIssues (s : Db) (work : Work) : List DQIssue :=
  s.issues.filter fun i => (work.runIds s).contains i.runId && i.isError

/-- Symbols whose row normalization rejected on the trade date. -/
def Work.rejected (s : Db) (work : Work) : List MemberKey :=
  ((work.errorIssues s).filter fun i => i.tradeDate.isSome && i.tradeDate == work.tradeDate).map
    (·.symbol)

/-- Plan members with a recorded no-data outcome; only a daily plan has them. -/
def Work.recordedNoData (s : Db) (work : Work) : List MemberKey :=
  match work.kind, work.planRef with
  | .daily, some (.uuid id) => (s.noData.filter (·.1 == id)).map (·.2)
  | _, _ => []

/-- `expected[key].get("mapping_status") == "gap"`. -/
def Work.frozenGap (work : Work) (key : MemberKey) : Bool :=
  ((work.manifest.map (·.members)).getD []).any fun row =>
    row.key == key && row.mappingStatus == some "gap"

/-- Raw bytes of this provider and dataset, for a malformed or an absent row. -/
def EODMemberResult.rawGap (cfg : Config) (work : Work) (m : EODMemberResult) : Bool :=
  m.raw.any (fun raw => contains ("/" ++ cfg.provider.name ++ "/" ++ work.datasetKey ++ "/") raw.ref) &&
  ((m.outcome == .invalid && m.reason == some .rowStructureInvalid) ||
    (m.outcome == .missing && m.reason == some .noSourceRow))

def Work.isEodV2 (work : Work) : Bool := work.manifest.bind (·.contract) == some marketEodV2

/-! ## validate_eod_completion -/

/-- A run whose rows may count: this work's provider, dataset and date. -/
def eodRun (cfg : Config) (work : Work) (run : Run) : Bool :=
  run.source == cfg.provider && run.datasetKey == work.datasetKey &&
  run.batchDataDate == work.tradeDate && run.schemaId == some "market_eod" &&
  run.schemaVersion == some 2 &&
  (run.status == .completed || run.status == .completedWithErrors)

def IssueType.isData : IssueType → Bool
  | .other _ => false
  | _ => true

/-- How one member of the document is accounted for. -/
inductive Coverage where
  | written | noData | gap
deriving DecidableEq, Repr

/-- The body of the loop over `evidence.members`. -/
def coverage (cfg : Config) (s : Db) (work : Work) (m : EODMemberResult) : Except Err Coverage :=
  if (work.written s).contains m.memberKey then
    if m.outcome == .data then .ok .written
    else .error (.value "actual EOD writes must be reported as data")
  else match m.outcome with
    | .data => .error (.value "EOD data claim lacks this work's actual-write evidence")
    | .noData =>
      if (work.recordedNoData s).contains m.memberKey then .ok .noData
      else .error (.value "EOD no-data claim lacks durable scoped evidence")
    | .mappingGap =>
      if work.frozenGap m.memberKey then .ok .gap
      else .error (.value "EOD mapping gap differs from frozen universe")
    | .invalid | .missing =>
      if (m.outcome == .invalid && (work.rejected s).contains m.memberKey) || m.rawGap cfg work then
        .ok .gap
      else .error (.value "EOD gap claim lacks matching raw or normalization evidence")

/-- `validate_eod_completion`: the members in document order, each with its proof. -/
def validateEodCompletion (cfg : Config) (s : Db) (work : Work) (evidence : EODCompletionEvidence)
    (outcome : Outcome) : Except Err (List Coverage) := do
  ensure ((work.kind == .daily || work.kind == .historical) && work.isEodV2 &&
      some evidence.tradeDate == work.tradeDate &&
      (work.runIds s).all fun id => eodRun cfg work (s.run id))
    (.value "partial completion is restricted to terminal EOD v2 daily/historical work")
  ensure (!work.expectedKeys.isEmpty && sameSet evidence.keys work.expectedKeys)
    (.value "EOD completion must account for every frozen member exactly once")
  ensure ((work.written s).all (work.expectedKeys.contains ·))
    (.value "EOD write evidence exceeds the frozen scope")
  ensure ((work.errorIssues s).all (·.issueType.isData))
    (.value "non-data normalization failures cannot settle partial")
  ensure (!(work.kind == .daily && work.planRef == some .text))
    (.value "badly formed hexadecimal UUID string")
  let proofs ← evidence.members.mapM (coverage cfg s work)
  ensure ((outcome == .partly) == proofs.contains .gap)
    (.value "partial requires gaps; completed requires full coverage")
  return proofs

/-! ## Completion by receipts -/

/-- The runs of the work's receipts that wrote every record. -/
def Work.goodRuns (s : Db) (work : Work) : List Uuid :=
  (work.runIds s).filter fun id => (s.run id).clean

/-- The runs that share a sequence with `run`. -/
def sequenceGroup (s : Db) (runs : List Uuid) (run : Run) : List Run :=
  (runs.map s.run).filter fun r => r.sequenceCount.isSome && r.snapshotId == run.snapshotId &&
    r.dailyUpdateId == run.dailyUpdateId

/-- A run outside any sequence, or of a sequence that has every one of its parts. -/
def sequenceComplete (s : Db) (runs : List Uuid) (run : Run) : Bool :=
  match run.sequenceCount with
  | none => true
  | some count =>
    (sequenceGroup s runs run).all (fun r => r.sequenceCount == some count) &&
    sameSet ((sequenceGroup s runs run).map (·.sequence))
      ((List.range count).map fun i => some (i + 1))

/-- The members the receipts prove, by run or by canonical member evidence. -/
def Work.completedKeys (s : Db) (work : Work) : List MemberKey :=
  let good := work.goodRuns s
  if work.manifest.bind (·.mode) == some "canonical" then
    let complete := good.filter fun id => sequenceComplete s good (s.run id)
    (s.evidence.filter fun e => complete.contains e.1).map (·.2)
  else
    ((s.receiptsOf work.workId).filter fun r => good.contains r.runId).map (·.memberKey)

def invalidProof (message : String) : Err := .work message "PROVIDER_WORK_INVALID_PROOF"

/-- `get_plan` finds the frozen plan complete. -/
def planComplete (s : Db) (work : Work) (plan : PlanRef) : Except Err Unit := do
  let id ← need (match plan with | .uuid id => some id | .text => none)
    (.value "badly formed hexadecimal UUID string")
  let status ← (s.registry.getPlan id work.datasetKey).mapError fun m => Err.fullMarket m 409
  ensure (some status.tradeDate == work.tradeDate &&
      some status.executionProfile == work.executionProfile && status.complete)
    (invalidProof "frozen daily plan has not completed its expected scope")

/-- The `completed` branch of `settle` for a work without an EOD v2 contract. -/
def completedByReceipts (s : Db) (work : Work) (proof : Proof) : Except Err Unit := do
  let expected := work.expectedKeys
  let skip := work.kind == .daily && work.manifest.any (·.calendarSkip)
  let completed := if skip then expected else work.completedKeys s
  let noData ← match work.kind, work.planRef with
    | .daily, some plan => do
      planComplete s work plan
      pure (expected.filter fun k => !completed.contains k)
    | _, _ => pure (if skip then [] else proof.noData)
  ensure (!expected.isEmpty && sameSet (completed ++ noData) expected &&
      (work.kind == .daily ||
        noData.all fun k => ((work.manifest.map (·.noDataEvidence)).getD []).contains k))
    (invalidProof "complete expected scope lacks durable terminal evidence")

end FinDB.ProviderWork
