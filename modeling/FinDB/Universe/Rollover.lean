import FinDB.Lib.Sweep
import FinDB.Lib.Table
import FinDB.Universe.Rows
import Mathlib.Data.List.Dedup
import Mathlib.Data.List.Sort

/-! # The rollover repair

`reconcile_taifex_rollover_candidates` looks at the newest candidate of every date, in
order. A preview reports what it would publish; an apply publishes it before it looks
at the next date. -/
namespace FinDB.Universe
open FinDB.Lib

/-! ## The tables -/

inductive ReleaseStatus where
  | candidate | published
deriving DecidableEq, Repr

/-- `universe_release`. -/
structure Release where
  releaseId : Uuid
  datasetKey : DatasetKey
  provider : Provider
  effectiveDate : CivilDate
  memberSha256 : String
  semanticMemberSha256 : String
  status : ReleaseStatus
  publishedAt : Option Instant
  publishedBy : Option String
  approvalNote : Option String
  createdAt : Instant
deriving DecidableEq

/-- `universe_member`, but for its ids. -/
structure MemberValues where
  member : Member
  rawEvidenceRef : Option String
deriving DecidableEq, Repr

structure State where
  /-- The registry has the dataset `tw_futures_eod`. -/
  dataset : Bool
  releases : Table Release.releaseId
  /-- With the release of each; the repair does not change them. -/
  members : List (Uuid × MemberValues)

/-- `_digest`, of the two kinds of lists it is given, and `str.upper`. -/
structure Config where
  digest : List MemberValues → String
  semanticDigest : List Member → String
  upper : String → String

/-! ## The repair -/

inductive Action where
  | alreadyPublished | wouldPublish | manualReview | published
deriving DecidableEq, Repr

structure Reviewed where
  effectiveDate : CivilDate
  releaseId : Uuid
  candidateCount : Nat
  action : Action
  /-- Whether the full and the semantic digest are right, where they are looked at. -/
  digests : Option (Bool × Bool)
deriving DecidableEq

def Release.inScope (r : Release) : Bool :=
  r.datasetKey == "tw_futures_eod" && r.provider == .taifex

namespace State
variable (s : State)

/-- The candidates of a date, oldest first. -/
def candidatesOf (date : CivilDate) : List Release :=
  (s.releases.rows.filter fun r => r.inScope && r.status == .candidate &&
    r.effectiveDate == date).insertionSort fun a b => a.createdAt ≤ b.createdAt

/-- `latest_by_date[date]`: of the candidates, the last one stays. -/
def latestByDate (date : CivilDate) : Option Release := (s.candidatesOf date).getLast?

/-- `sorted(latest_by_date)`. -/
def candidateDates : List CivilDate :=
  ((s.releases.rows.filter fun r => r.inScope && r.status == .candidate).map
    (·.effectiveDate)).dedup.insertionSort (· ≤ ·)

def exactPublished (date : CivilDate) : Bool :=
  s.releases.rows.any fun r => r.inScope && r.effectiveDate == date && r.status == .published

/-- `ORDER BY effective_date DESC, created_at DESC`. -/
def newestFirst (a b : Release) : Bool :=
  decide (b.effectiveDate < a.effectiveDate) ||
  (a.effectiveDate == b.effectiveDate && decide (b.createdAt ≤ a.createdAt))

/-- The newest release published before the date. -/
def prior (date : CivilDate) : Option Release :=
  ((s.releases.rows.filter fun r => r.inScope && r.status == .published &&
    decide (r.effectiveDate < date)).insertionSort (newestFirst · ·)).head?

/-- `_release_member_values`. -/
def releaseMemberValues (releaseId : Uuid) : List MemberValues :=
  ((s.members.filter (·.1 == releaseId)).map (·.2)).insertionSort fun a b =>
    a.member.memberKey ≤ b.member.memberKey

end State

/-- `_semantic_members`. -/
def semanticMembers (values : List MemberValues) : List Member :=
  (values.insertionSort fun a b => a.member.memberKey ≤ b.member.memberKey).map (·.member)

/-- Whether the two digests a release stores are those of its members. -/
def digestsValid (cfg : Config) (s : State) (candidate : Release) : Bool × Bool :=
  let values := s.releaseMemberValues candidate.releaseId
  (cfg.digest values == candidate.memberSha256,
    cfg.semanticDigest (semanticMembers values) == candidate.semanticMemberSha256)

/-- `safe`. -/
def safe (cfg : Config) (s : State) (candidate : Release) (date : CivilDate) : Bool :=
  match s.prior date with
  | none => false
  | some prior => (digestsValid cfg s candidate).1 && (digestsValid cfg s candidate).2 &&
    taifexDatedRollIsSafe cfg.upper (semanticMembers (s.releaseMemberValues prior.releaseId))
      (semanticMembers (s.releaseMemberValues candidate.releaseId)) date

def Release.publish (now : Instant) (actor : String) (r : Release) : Release :=
  { r with
    status := .published, publishedAt := some now, publishedBy := some actor,
    approvalNote := some "Reconciled bounded forward-only TAIFEX dated contract rollover." }

theorem Release.publish_releaseId (now : Instant) (actor : String) (r : Release) :
    (r.publish now actor).releaseId = r.releaseId := rfl

/-- The body of the loop; `candidate` was read before the loop. -/
def reviewDate (cfg : Config) (apply : Bool) (now : Instant) (actor : String) (s : State)
    (date : CivilDate) (candidate : Release) (count : Nat) : Reviewed × State :=
  if s.exactPublished date then
    (⟨date, candidate.releaseId, count, .alreadyPublished, none⟩, s)
  else
    let digests := some (digestsValid cfg s candidate)
    if safe cfg s candidate date && apply then
      (⟨date, candidate.releaseId, count, .published, digests⟩,
        { s with releases := s.releases.modify candidate.releaseId (·.publish now actor) })
    else
      (⟨date, candidate.releaseId, count,
        if safe cfg s candidate date then .wouldPublish else .manualReview, digests⟩, s)

/-- The loop. -/
def reviewDates (cfg : Config) (apply : Bool) (now : Instant) (actor : String) (s₀ : State) :
    List CivilDate → State → List Reviewed × State
  | [], s => ([], s)
  | date :: dates, s =>
    match s₀.latestByDate date with
    | none => reviewDates cfg apply now actor s₀ dates s
    | some candidate =>
      let (reviewed, s') := reviewDate cfg apply now actor s date candidate
        (s₀.candidatesOf date).length
      let (rest, t) := reviewDates cfg apply now actor s₀ dates s'
      (reviewed :: rest, t)

/-- `reconcile_taifex_rollover_candidates`: a preview rolls back. -/
def reconcile (cfg : Config) (apply : Bool) (now : Instant) (actor : String) (s : State) :
    List Reviewed × State :=
  if !s.dataset then ([], s)
  else
    let (results, t) := reviewDates cfg apply now actor s s.candidateDates s
    (results, if apply then t else s)

/-- The releases the results report with an action. -/
def reported (action : Action) (results : List Reviewed) : List Uuid :=
  (results.filter (·.action == action)).map (·.releaseId)

end FinDB.Universe
