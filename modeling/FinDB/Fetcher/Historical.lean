import FinDB.Lib.Machine

/-! # Historical items of TAIFEX

A run of an item works through its reports, the raw copies, the manifest and the delivery.
Its state is one row of a checkpoint file, read at the start and written after each step, and
every operation has a budget of three attempts in it. The attempt is written before the
action starts and taken back when the action proves that it never left the machine. A process
may end between any two of these steps, and the next run reads the row again. -/
namespace FinDB.Fetcher.Historical
open FinDB.Lib

inductive Product where
  | TX | MTX | TMF | TE | TF
deriving DecidableEq, Repr

def products : List Product := [.TX, .MTX, .TMF, .TE, .TF]

/-- The keys of `state["operations"]`. -/
inductive Key where
  | fetch (product : Product)
  | raw (product : Product)
  | manifest | delivery | terminal | completion
deriving DecidableEq, Repr

def Key.isFetch : Key → Bool
  | .fetch _ => true
  | _ => false

/-- Microseconds. -/
abbrev Time := Int

def seconds (n : Int) : Time := 1000000 * n

/-- An entry of `state["operations"]`; older rows count `failures`. -/
structure Attempt where
  attempts : Option Nat
  failures : Option Nat
  nextAt : Time
deriving DecidableEq, Repr

/-- `{"attempts": 0, "next_at": 0}`. -/
def Attempt.fresh : Attempt := ⟨some 0, none, 0⟩

/-- `attempt.get("attempts", attempt.get("failures", 0))`. -/
def Attempt.count (a : Attempt) : Nat := (a.attempts <|> a.failures).getD 0

/-- What an item has kept of its work. -/
structure Results (Value : Type) where
  bytes : Product → Option Value
  reports : Product → Option Value
  manifestBody : Option Value
  prepared : Option Value
  evidence : Option Value
  receipt : Option Value

/-- The checkpoint of an item; there is no row yet while it has no identity. -/
structure State (Value : Type) where
  identity : Option Value
  results : Results Value
  operations : Key → Option Attempt

variable {Value : Type}

/-- The attempt that `setdefault` finds or makes. -/
def State.entry (st : State Value) (k : Key) : Attempt := (st.operations k).getD .fresh

def State.enter (st : State Value) (k : Key) (a : Attempt) : State Value :=
  { st with operations := fun j => if j = k then some a else st.operations j }

/-- `state["operations"].pop(key)`. -/
def State.pop (st : State Value) (k : Key) : State Value :=
  { st with operations := fun j => if j = k then none else st.operations j }

/-! ## One operation -/

structure Item (Value : Type) where
  identity : Value
  leaseExpiresAt : Option Time

/-- What one turn of the loop reads: the clock, the cooldown and the heartbeat. -/
structure Reading where
  now : Time
  cooldown : Time
  failed : Bool

inductive Gate where
  | unavailable | boundary | exhausted
  | sleep (d : Time)
  | reserve (count : Nat)
deriving DecidableEq, Repr

def ready (k : Key) (a : Attempt) (r : Reading) : Time :=
  max a.nextAt (if k.isFetch then r.cooldown else 0)

def expiry (item : Item Value) (owner : Bool) (now : Time) : Time :=
  if owner then now + seconds 900 else item.leaseExpiresAt.getD (now + seconds 900)

/-- The head of the loop of `_operation`. -/
def gate (item : Item Value) (owner : Bool) (k : Key) (a : Attempt) (r : Reading) : Gate :=
  if owner && r.failed then .unavailable
  else if max r.now (ready k a r) + seconds 35 ≥ expiry item owner r.now then .boundary
  else if ready k a r > r.now then .sleep (min (seconds 30) (ready k a r - r.now))
  else if 3 ≤ a.count then .exhausted
  else .reserve a.count

/-- `(30, 120, 120)[count]`. -/
def delay (count : Nat) : Time := if count = 0 then seconds 30 else seconds 120

/-- What an action raises. `dispatched` of an unavailable Source tells whether the owner
observed a native dispatch. -/
inductive Failure where
  | sourceUnavailable (dispatched : Bool)
  | quotaBlocked (quotaWait dispatched : Bool)
  | transport
  | control (status : Option Nat)
  | taifex (retryable : Bool)
  | sourceResponse (status : Nat)
  | rawUpload (retryable : Bool)
  | other
deriving DecidableEq, Repr

def Failure.retryable : Failure → Bool
  | .quotaBlocked _ _ => true
  | .transport => true
  | .control status => status.all fun s => s == 429 || decide (500 ≤ s)
  | .taifex retryable => retryable
  | .sourceResponse status => status == 429 || decide (500 ≤ status)
  | .rawUpload retryable => retryable
  | .sourceUnavailable _ => false
  | .other => false

inductive Outcome (Value : Type) where
  | success (v : Value)
  | failure (f : Failure) (retryAfter : Time)

/-- A wait that is proved undispatched. -/
def Outcome.isWait (owner : Bool) : Outcome Value → Bool
  | .failure (.sourceUnavailable dispatched) _ => owner && !dispatched
  | .failure (.quotaBlocked quotaWait dispatched) _ => quotaWait && !dispatched
  | _ => false

/-! ## The run of an item -/

inductive Verdict where
  | pending | complete | incomplete
deriving DecidableEq, Repr

/-- What a run computes from what it has; `none` raises. -/
structure Content (Value : Type) where
  /-- The reference and rows of a report, from its bytes and the stored object. -/
  report : Product → Value → Value → Option Value
  manifestBody : Results Value → Time → Value
  /-- The evidence, and the request where there are rows to deliver. -/
  evidence : Value → Value → Option (Value × Option Value)
  receipt : Value → Value
  verdict : Value → Value → Verdict

/-- The operation a run comes to with what an item has kept. -/
def Results.stage (r : Results Value) : Option Key :=
  if r.prepared.isNone && r.evidence.isNone then
    match products.find? fun p => (r.reports p).isNone with
    | some p => some (if (r.bytes p).isNone then .fetch p else .raw p)
    | none => some .manifest
  else if r.evidence.isNone || r.prepared.isNone then none
  else if r.receipt.isNone then some .delivery
  else some .terminal

/-- What the work of the owner keeps: the frozen evidence and the reserved requests. -/
structure Work (Value : Type) where
  evidence : Option Value
  reserved : List Value

def Work.freeze (w : Work Value) (evidence : Value) : Work Value :=
  { w with evidence := some (w.evidence.getD evidence) }

def Work.reserve [DecidableEq Value] (w : Work Value) (request : Value) : Work Value :=
  if request ∈ w.reserved then w else { w with reserved := w.reserved ++ [request] }

/-- Where a process stands: between operations, in the loop, after the attempt is written,
in the action, after it succeeded, and on the way from the manifest to its evidence. -/
inductive Point (Value : Type) where
  | next
  | waiting (k : Key)
  | reserved (k : Key) (count : Nat) (at_ : Time)
  | acting (k : Key) (count : Nat) (at_ : Time)
  | succeeded (k : Key) (v : Value)
  | freezing (evidence request : Value)
  | reserving (evidence request : Value)
  | prepared (evidence request : Value)

structure Process (Value : Type) where
  item : Item Value
  owner : Bool
  state : State Value
  point : Point Value

/-- One start of an action. `counted` is false once it ended in a proved wait, and
`notBefore` is the retry floor recorded for it. -/
structure Invocation where
  key : Key
  attempt : Nat
  at_ : Time
  counted : Bool
  notBefore : Time
deriving DecidableEq, Repr

/-- The row of the item, the work of its owner and the process that holds the lock. The
readings of the clock, the invocations and the number of runs that returned a result are
kept for the theorems, newest first. -/
structure World (Value : Type) where
  disk : State Value
  work : Work Value
  process : Option (Process Value)
  readings : List Time
  log : List Invocation
  returned : Nat

def World.ends (w : World Value) : World Value := { w with process := none }

/-- `_save`. -/
def World.save (w : World Value) (st : State Value) : World Value := { w with disk := st }

def World.reads (w : World Value) (now : Time) : World Value :=
  { w with readings := now :: w.readings }

def World.at (w : World Value) (p : Process Value) (st : State Value) (point : Point Value) :
    World Value :=
  { w with process := some { p with state := st, point := point } }

/-- `_operation` is called: `setdefault` is in memory only. -/
def World.enter (w : World Value) (p : Process Value) (st : State Value) (k : Key) :
    World Value :=
  w.at p (st.enter k (st.entry k)) (.waiting k)

/-- What a run starts from: the row, and what the work of the owner gives back. -/
def restored (owner : Bool) (st : State Value) (work : Work Value) : Option (State Value) :=
  if owner && st.results.prepared.isNone then
    match work.evidence, work.reserved with
    | some evidence, [request] =>
      some { st with results := { st.results with prepared := some request, evidence := some evidence } }
    | some _, _ :: _ :: _ => none
    | _, _ => some st
  else some st

variable [DecidableEq Value] (content : Content Value)

/-- `run` up to its first operation. -/
def World.start (w : World Value) (item : Item Value) (owner : Bool) : World Value :=
  if w.process.isSome || item.leaseExpiresAt.isNone then w
  else if w.disk.identity.any (· ≠ item.identity) then w
  else
    match restored owner { w.disk with identity := some item.identity } w.work with
    | none => w
    | some st =>
      let w := if st.results.prepared.isSome && w.disk.results.prepared.isNone then w.save st else w
      { w with process := some ⟨item, owner, st, .next⟩ }

/-- `complete`. -/
def World.startComplete (w : World Value) (item : Item Value) (owner : Bool) : World Value :=
  if w.process.isSome || w.disk.identity.isNone then w
  else
    let p : Process Value := ⟨item, owner, w.disk, .next⟩
    w.enter p w.disk .completion

def World.freeze (w : World Value) (owner : Bool) (evidence : Option Value) : World Value :=
  match owner, evidence with
  | true, some evidence => { w with work := w.work.freeze evidence }
  | _, _ => w

/-- A run goes on to its next operation. -/
def World.advance (w : World Value) (p : Process Value) (now : Time) : World Value :=
  let st := p.state
  match st.results.stage with
  | some .manifest =>
    if st.results.manifestBody.isNone then
      let body := content.manifestBody st.results now
      let st := { st with results := { st.results with manifestBody := some body } }
      ((w.reads now).save st).at p st .next
    else w.enter p st .manifest
  | some .delivery => (w.freeze p.owner st.results.evidence).enter p st .delivery
  | some .terminal => (w.freeze p.owner st.results.evidence).enter p st .terminal
  | some k => w.enter p st k
  | none =>
    -- no request: the evidence is the result; no evidence: a key error
    if st.results.evidence.isNone then w.ends
    else { (w.freeze p.owner st.results.evidence).ends with returned := w.returned + 1 }

/-- One turn of the loop of `_operation`. -/
def World.turn (w : World Value) (p : Process Value) (k : Key) (r : Reading) : World Value :=
  match gate p.item p.owner k (p.state.entry k) r with
  | .sleep _ => w.reads r.now
  | .reserve count =>
    let a := { p.state.entry k with attempts := some (count + 1), nextAt := r.now + delay count }
    let st := p.state.enter k a
    ((w.reads r.now).save st).at p st (.reserved k count r.now)
  | _ => (w.reads r.now).ends

def World.dispatch (w : World Value) (p : Process Value) (k : Key) (count : Nat) (at_ : Time) :
    World Value :=
  { w.at p p.state (.acting k count at_) with
    log := ⟨k, count, at_, true, at_ + delay count⟩ :: w.log }

/-- The invocation under way is changed in the log. -/
def World.amend (w : World Value) (f : Invocation → Invocation) : World Value :=
  { w with log := match w.log with
    | [] => []
    | i :: log => f i :: log }

/-- The action ends. A success is popped in memory and left to the caller. -/
def World.finish (w : World Value) (p : Process Value) (k : Key) (count : Nat)
    (outcome : Outcome Value) (now cooldown : Time) : World Value :=
  let a := p.state.entry k
  match outcome with
  | .success v => w.at p (p.state.pop k) (.succeeded k v)
  | .failure f retryAfter =>
    if outcome.isWait p.owner then
      let st := p.state.enter k
        { a with attempts := some count, nextAt := max (now + seconds 60) cooldown }
      let w := ((w.reads now).save st).amend fun i => { i with counted := false }
      if p.owner then w.ends else w.at p st (.waiting k)
    else if f.retryable then
      let floor := now + max (delay count) retryAfter
      let st := p.state.enter k { a with nextAt := floor }
      let w := ((w.reads now).save st).amend fun i => { i with notBefore := floor }
      if p.owner || decide (3 ≤ count + 1) then w.ends else w.at p st (.waiting k)
    else (w.save p.state).ends

/-- The caller of `_operation` keeps the result. -/
def World.keep (w : World Value) (p : Process Value) (k : Key) (v : Value) : World Value :=
  let st := p.state
  let goOn (r : Results Value) : World Value :=
    (w.save { st with results := r }).at p { st with results := r } .next
  match k with
  | .fetch product =>
    goOn { st.results with bytes := fun q => if q = product then some v else st.results.bytes q }
  | .raw product =>
    match (st.results.bytes product).bind fun raw => content.report product raw v with
    | none => w.ends
    | some report =>
      goOn { st.results with
        reports := fun q => if q = product then some report else st.results.reports q }
  | .manifest =>
    match st.results.manifestBody.bind fun body => content.evidence body v with
    | none => w.ends
    | some (evidence, none) => goOn { st.results with evidence := some evidence }
    | some (evidence, some request) =>
      w.at p st (if p.owner then .freezing evidence request else .prepared evidence request)
  | .delivery => goOn { st.results with receipt := some (content.receipt v) }
  | .terminal =>
    match st.results.prepared.elim .incomplete fun request => content.verdict request v with
    | .pending => (w.save st).enter p st .terminal
    | .complete => { (w.save st).ends with returned := w.returned + 1 }
    | .incomplete => (w.save st).ends
  | .completion => (w.save st).ends

inductive Op (Value : Type) where
  | start (item : Item Value) (owner : Bool)
  | complete (item : Item Value) (owner : Bool)
  /-- The process goes on; a clock that is read on the way says `now`. -/
  | go (now : Time)
  | turn (r : Reading)
  | finish (outcome : Outcome Value) (now cooldown : Time)
  /-- The process dies, or raises where nothing is written. -/
  | stop

def apply : Op Value → World Value → World Value
  | .start item owner, w => w.start item owner
  | .complete item owner, w => w.startComplete item owner
  | .stop, w => w.ends
  | .go now, w =>
    match w.process with
    | none => w
    | some p =>
      match p.point with
      | .next => w.advance content p now
      | .reserved k count at_ => w.dispatch p k count at_
      | .succeeded k v => w.keep content p k v
      | .freezing evidence request =>
        (w.freeze p.owner (some evidence)).at p p.state (.reserving evidence request)
      | .reserving evidence request =>
        { w with work := w.work.reserve request }.at p p.state (.prepared evidence request)
      | .prepared evidence request =>
        let results := { p.state.results with prepared := some request, evidence := some evidence }
        let st := { p.state with results := results }
        (w.save st).at p st .next
      | _ => w
  | .turn r, w =>
    match w.process with
    | none => w
    | some p =>
      match p.point with
      | .waiting k => w.turn p k r
      | _ => w
  | .finish outcome now cooldown, w =>
    match w.process with
    | none => w
    | some p =>
      match p.point with
      | .acting k count _ => w.finish p k count outcome now cooldown
      | _ => w

end FinDB.Fetcher.Historical
