import FinDB.Fetcher.Budget

/-! # Runs of an item

The budget over any sequence of runs, completions and crashes. Once the third counted
invocation of an operation left no result, every later run stops at it. -/
namespace FinDB.Fetcher.Historical
open FinDB.Lib

variable {Value : Type}

/-- All invocations of a key, counted or not. -/
def invocations (log : List Invocation) (k : Key) : Nat :=
  (log.filter fun i => decide (i.key = k)).length

theorem invocations_cons (i : Invocation) (log : List Invocation) (k : Key) :
    invocations (i :: log) k = invocations log k + if i.key = k then 1 else 0 := by
  unfold invocations
  rw [List.filter_cons]
  by_cases h : i.key = k <;> simp [h]

/-- An operation with a saved result is not invoked. -/
theorem Change.invocations {w w' : World Value} (h : Change w w') {k : Key}
    (hk : k.durable = true) (hs : w.disk.results.settled k = true) :
    Historical.invocations w'.log k = Historical.invocations w.log k := by
  cases h with
  | quiet _ _ _ log => rw [log]
  | reserve _ _ _ _ _ log => rw [log]
  | dispatch j count at_ held due lt after next log =>
    rw [log, invocations_cons]
    split
    · rename_i he
      have he' : j = k := he
      subst he'
      rw [due.open hk] at hs
      cases hs
    · rfl
  | refund _ _ _ _ _ log _ log' => rw [log, log', invocations_cons, invocations_cons]
  | floor _ _ _ _ log _ log' => rw [log, log', invocations_cons, invocations_cons]
  | settle log => rw [log]

/-- What runs do apart from the completion. -/
def ofRuns (log : List Invocation) : List Invocation :=
  log.filter fun i => decide (i.key ≠ .completion)

theorem ofRuns_completion {i : Invocation} (h : i.key = .completion) (log : List Invocation) :
    ofRuns (i :: log) = ofRuns log := by
  simp [ofRuns, h]

/-- A process that cannot get past `k`, or only completes. -/
def Stuck (k : Key) (p : Process Value) : Prop :=
  match p.point with
  | .next => True
  | .waiting j => j = k ∨ j = .completion
  | .reserved j _ _ => j = .completion
  | .acting j _ _ => j = .completion
  | .succeeded j _ => j = .completion
  | _ => False

/-- The run stands at `k`, its attempts are spent, and the work of the owner does not give
its result back. -/
structure Exhausted (w : World Value) (k : Key) : Prop where
  durable : k.durable = true
  stage : w.disk.results.stage = some k
  spent : 3 ≤ (w.disk.entry k).count
  lost : w.disk.results.prepared = none → w.work.evidence = none ∨ w.work.reserved = []
  stuck : ∀ p, w.process = some p → Stuck k p

/-- A spent operation is not reserved again, and once its floor and the cooldown have passed
the run raises. -/
theorem gate_spent {item : Item Value} {owner : Bool} {k : Key} {a : Attempt} {r : Reading}
    (h : 3 ≤ a.count) :
    (∀ count, gate item owner k a r ≠ .reserve count) ∧
      (ready k a r ≤ r.now → gate item owner k a r ∈ [.unavailable, .boundary, .exhausted]) := by
  unfold gate
  split
  · exact ⟨fun _ e => (by cases e), fun _ => by simp⟩
  split
  · exact ⟨fun _ e => (by cases e), fun _ => by simp⟩
  split
  · rename_i hready
    exact ⟨fun _ e => (by cases e), fun hle => absurd hready (Int.not_lt.mpr hle)⟩
  · exact ⟨fun _ e => (by cases e), fun _ => by simp⟩

theorem idle_stuck {w : World Value} {k : Key} (h : w.process = none) :
    ∀ p, w.process = some p → Stuck k p := by
  intro p hp
  rw [h] at hp
  cases hp

theorem Exhausted.of_disk {w w' : World Value} {k : Key} (h : Exhausted w k)
    (hstage : w'.disk.results.stage = w.disk.results.stage)
    (hentry : w'.disk.entry k = w.disk.entry k)
    (hlost : w'.disk.results.prepared = none → w.disk.results.prepared = none ∧ w'.work = w.work)
    (hstuck : ∀ p, w'.process = some p → Stuck k p) : Exhausted w' k where
  durable := h.durable
  stage := hstage.trans h.stage
  spent := by rw [hentry]; exact h.spent
  lost hnone := by
    obtain ⟨hnone', hwork⟩ := hlost hnone
    rw [hwork]
    exact h.lost hnone'
  stuck := hstuck

/-- The row is as it was but for the completion. -/
theorem Exhausted.of_held {w w' : World Value} {k : Key} (h : Exhausted w k)
    (hheld : Held w.disk w'.disk (some .completion)) (hwork : w'.work = w.work)
    (hstuck : ∀ p, w'.process = some p → Stuck k p) : Exhausted w' k :=
  h.of_disk (by rw [hheld.results])
    (hheld.entries k fun e => by cases e; cases h.durable)
    (fun hnone => ⟨by rwa [hheld.results] at hnone, hwork⟩) hstuck

theorem Held.weaken {disk st : State Value} (h : Held disk st none) (but : Option Key) :
    Held disk st but :=
  ⟨h.results, fun j _ => h.entries j fun e => by cases e⟩

theorem restored_lost {owner : Bool} {st st' : State Value} {work : Work Value}
    (hlost : st.results.prepared = none → work.evidence = none ∨ work.reserved = [])
    (h : restored owner st work = some st') : st' = st := by
  unfold restored at h
  split at h
  · rename_i hc
    simp only [Bool.and_eq_true, Option.isNone_iff_eq_none] at hc
    split at h
    · rename_i hevidence hreserved
      rcases hlost hc.2 with hl | hl
      · rw [hevidence] at hl
        cases hl
      · rw [hreserved] at hl
        cases hl
    · cases h
    · cases h
      rfl
  · cases h
    rfl

/-- What a step leaves of an exhausted item. -/
structure Stays (w w' : World Value) (k : Key) : Prop where
  exhausted : Exhausted w' k
  log : ofRuns w'.log = ofRuns w.log
  returned : w'.returned = w.returned

variable [DecidableEq Value] {content : Content Value}

theorem Exhausted.start {w : World Value} {k : Key} (h : Exhausted w k) (item : Item Value)
    (owner : Bool) : Stays w (w.start item owner) k := by
  unfold World.start
  split
  · exact ⟨h, rfl, rfl⟩
  split
  · exact ⟨h, rfl, rfl⟩
  split
  · exact ⟨h, rfl, rfl⟩
  · rename_i st hst
    have hlost : ({ w.disk with identity := some item.identity } : State Value).results.prepared =
        none → w.work.evidence = none ∨ w.work.reserved = [] := h.lost
    cases restored_lost hlost hst
    rw [if_neg (by cases w.disk.results.prepared <;> simp)]
    refine ⟨h.of_disk rfl rfl (fun hn => ⟨hn, rfl⟩) fun p hp => ?_, rfl, rfl⟩
    cases hp
    trivial

omit [DecidableEq Value] in
theorem Exhausted.complete {w : World Value} {k : Key} (h : Exhausted w k) (item : Item Value)
    (owner : Bool) : Stays w (w.startComplete item owner) k := by
  unfold World.startComplete
  split
  · exact ⟨h, rfl, rfl⟩
  · refine ⟨h.of_disk rfl rfl (fun hn => ⟨hn, rfl⟩) fun p hp => ?_, rfl, rfl⟩
    cases hp
    exact Or.inr rfl

omit [DecidableEq Value] in
theorem Exhausted.advance {w : World Value} {k : Key} {p : Process Value} (h : Exhausted w k)
    (hheld : Held w.disk p.state none) (now : Time) : Stays w (w.advance content p now) k := by
  have hstage : p.state.results.stage = some k := by rw [hheld.results]; exact h.stage
  have henter : ∀ j, some j = some k → Stays w (w.enter p p.state j) k := by
    intro j hj
    refine ⟨h.of_disk rfl rfl (fun hn => ⟨hn, rfl⟩) fun p' hp' => ?_, rfl, rfl⟩
    cases hp'
    exact Or.inl (Option.some.inj hj)
  unfold World.advance
  dsimp only
  split
  · rename_i hk
    split
    · refine ⟨h.of_disk ?_ (hheld.entries k fun e => by cases e) (fun hn => ⟨?_, rfl⟩)
        fun p' hp' => ?_, rfl, rfl⟩
      · exact (Results.stage_body _ _).trans (hstage.trans h.stage.symm)
      · rw [← hheld.results]
        exact hn
      · cases hp'
        trivial
    · exact henter _ (hk.symm.trans hstage)
  · rename_i hk
    -- the delivery has a request, so the work is not asked again
    have hsome := stage_delivery hk
    obtain ⟨hd, hl, _⟩ := freeze_disk w p.owner p.state.results.evidence
    refine ⟨h.of_disk (congrArg (·.results.stage) hd) (congrArg (·.entry k) hd) (fun hn => ?_)
      fun p' hp' => ?_, congrArg ofRuns hl, ?_⟩
    · change (w.freeze p.owner p.state.results.evidence).disk.results.prepared = none at hn
      rw [hd, ← hheld.results] at hn
      rw [hn] at hsome
      cases hsome
    · cases hp'
      exact Or.inl (Option.some.inj (hk.symm.trans hstage))
    · change (w.freeze _ _).returned = _
      unfold World.freeze
      split <;> rfl
  · rename_i hk
    cases hk.symm.trans hstage
    cases h.durable
  · rename_i hk
    exact henter _ (hk.symm.trans hstage)
  · rename_i hk
    cases hk.symm.trans hstage

omit [DecidableEq Value] in
theorem Exhausted.turn {w : World Value} {k j : Key} {p : Process Value} (h : Exhausted w k)
    (hheld : Held w.disk p.state none) (hp : w.process = some p) (hpoint : p.point = .waiting j)
    (r : Reading) : Stays w (w.turn p j r) k := by
  have hstuck := h.stuck p hp
  unfold Stuck at hstuck
  rw [hpoint] at hstuck
  unfold World.turn
  split
  · exact ⟨h.of_disk rfl rfl (fun hn => ⟨hn, rfl⟩) h.stuck, rfl, rfl⟩
  · rename_i count hgate
    rcases hstuck with rfl | rfl
    · rw [hheld.entries j fun e => by cases e] at hgate
      exact absurd hgate ((gate_spent h.spent).1 count)
    · refine ⟨h.of_held (hheld.enter _ _) rfl fun p' hp' => ?_, rfl, rfl⟩
      cases hp'
      rfl
  · exact ⟨h.of_disk rfl rfl (fun hn => ⟨hn, rfl⟩) (idle_stuck rfl), rfl, rfl⟩

omit [DecidableEq Value] in
theorem Exhausted.finish {w : World Value} {k : Key} {p : Process Value} {count : Nat}
    {i : Invocation} {rest : List Invocation} (h : Exhausted w k)
    (hheld : Held w.disk p.state none) (hlog : w.log = i :: rest) (hi : i.key = .completion)
    (outcome : Outcome Value) (now cooldown : Time) :
    Stays w (w.finish p .completion count outcome now cooldown) k := by
  have hamend : ∀ (v : World Value) (f : Invocation → Invocation), v.log = w.log →
      (∀ i, (f i).key = i.key) → ofRuns (v.amend f).log = ofRuns w.log := by
    intro v f hv hf
    unfold World.amend
    rw [hv, hlog]
    rw [ofRuns_completion hi, ofRuns_completion ((hf i).trans hi)]
  unfold World.finish
  dsimp only
  split
  · refine ⟨h.of_disk rfl rfl (fun hn => ⟨hn, rfl⟩) fun p' hp' => ?_, rfl, rfl⟩
    cases hp'
    rfl
  split
  · split
    · exact ⟨h.of_held (hheld.enter _ _) rfl (idle_stuck rfl),
        hamend _ _ rfl fun _ => rfl, rfl⟩
    · refine ⟨h.of_held (hheld.enter _ _) rfl fun p' hp' => ?_, hamend _ _ rfl fun _ => rfl, rfl⟩
      cases hp'
      exact Or.inr rfl
  split
  · split
    · exact ⟨h.of_held (hheld.enter _ _) rfl (idle_stuck rfl),
        hamend _ _ rfl fun _ => rfl, rfl⟩
    · refine ⟨h.of_held (hheld.enter _ _) rfl fun p' hp' => ?_, hamend _ _ rfl fun _ => rfl, rfl⟩
      cases hp'
      exact Or.inr rfl
  · exact ⟨h.of_held (hheld.weaken _) rfl (idle_stuck rfl), rfl, rfl⟩

theorem Exhausted.apply {w : World Value} {k : Key} (h : Exhausted w k) (hinv : Inv w)
    (op : Op Value) : Stays w (Historical.apply content op w) k := by
  have hsame : Stays w w k := ⟨h, rfl, rfl⟩
  cases op with
  | start item owner => exact h.start item owner
  | complete item owner => exact h.complete item owner
  | stop => exact ⟨h.of_disk rfl rfl (fun hn => ⟨hn, rfl⟩) (idle_stuck rfl), rfl, rfl⟩
  | go now =>
    simp only [Historical.apply]
    split
    · exact hsame
    rename_i p hp
    have hfacing := hinv.facing p hp
    have hstuck := h.stuck p hp
    unfold Facing at hfacing
    unfold Stuck at hstuck
    split <;> rename_i hpoint <;> simp only [hpoint] at hfacing hstuck
    · exact h.advance hfacing now
    · subst hstuck
      refine ⟨h.of_disk rfl rfl (fun hn => ⟨hn, rfl⟩) fun p' hp' => ?_,
        ofRuns_completion rfl _, rfl⟩
      cases hp'
      rfl
    · subst hstuck
      exact ⟨h.of_held hfacing.1 rfl (idle_stuck rfl), rfl, rfl⟩
    · exact hsame
  | turn r =>
    simp only [Historical.apply]
    split
    · exact hsame
    rename_i p hp
    split
    · rename_i j hpoint
      have hfacing := hinv.facing p hp
      unfold Facing at hfacing
      rw [hpoint] at hfacing
      exact h.turn hfacing.1 hp hpoint r
    · exact hsame
  | finish outcome now cooldown =>
    simp only [Historical.apply]
    split
    · exact hsame
    rename_i p hp
    split
    · rename_i j count at_ hpoint
      have hfacing := hinv.facing p hp
      have hstuck := h.stuck p hp
      unfold Facing at hfacing
      unfold Stuck at hstuck
      rw [hpoint] at hfacing hstuck
      obtain ⟨hheld, _, _, _, _, rest, hlog, _⟩ := hfacing
      subst hstuck
      exact h.finish hheld hlog rfl outcome now cooldown
    · exact hsame

/-! ## The budget -/

/-- Any sequence of steps: runs, completions, and processes that die anywhere. -/
abbrev Runs (content : Content Value) : World Value → World Value → Prop :=
  StepsIf (apply content) fun _ _ => True

/-- An item before its first step, with whatever row and work there is. -/
structure Fresh (w : World Value) : Prop where
  process : w.process = none
  log : w.log = []
  readings : w.readings = []

omit [DecidableEq Value] in
theorem inv_fresh {w : World Value} (h : Fresh w) : Inv w where
  journaled := by
    rw [h.log]
    exact ⟨fun _ _ => Nat.zero_le _, fun _ _ _ => Nat.zero_le _, fun _ hi => by cases hi⟩
  floored _ := by
    rw [h.log]
    exact ⟨fun _ hi => (by cases hi), List.Pairwise.nil, fun _ hi => by cases hi⟩
  facing p hp := by
    rw [h.process] at hp
    cases hp

theorem inv_runs {w w' : World Value} (hw : Inv w) (h : Runs content w w') : Inv w' :=
  h.inv (fun s op hs _ => hs.step (step_apply op s hs)) hw

theorem invocations_settled {w w' : World Value} (hw : Inv w) (h : Runs content w w') {k : Key}
    (hk : k.durable = true) (hs : w.disk.results.settled k = true) :
    invocations w'.log k = invocations w.log k := by
  have hboth : w'.disk.results.settled k = true ∧ invocations w'.log k = invocations w.log k ∧
      Inv w' := by
    refine StepsIf.inv (I := fun v => v.disk.results.settled k = true ∧
      invocations v.log k = invocations w.log k ∧ Inv v) (fun v op hv _ => ?_) h ⟨hs, rfl, hw⟩
    obtain ⟨hsv, hiv, hinv⟩ := hv
    have hstep : Step v (Historical.apply content op v) := step_apply op v hinv
    exact ⟨hstep.change.extends_ k hsv, (hstep.change.invocations hk hsv).trans hiv,
      hinv.step hstep⟩
  exact hboth.2.1

theorem exhausted_runs {w w' : World Value} (hw : Inv w) (h : Runs content w w') {k : Key}
    (he : Exhausted w k) : Stays w w' k := by
  have hboth : Stays w w' k ∧ Inv w' := by
    refine StepsIf.inv (I := fun v => Stays w v k ∧ Inv v) (fun v op hv _ => ?_) h
      ⟨⟨he, rfl, rfl⟩, hw⟩
    obtain ⟨hstays, hinv⟩ := hv
    have hnext : Stays v (Historical.apply content op v) k := hstays.exhausted.apply hinv op
    exact ⟨⟨hnext.exhausted, hnext.log.trans hstays.log, hnext.returned.trans hstays.returned⟩,
      hinv.step (step_apply op v hinv)⟩
  exact hboth.1

/-- A counted invocation is followed by its own retry delay. -/
def Spaced (log : List Invocation) (k : Key) : Prop :=
  log.Pairwise fun later earlier => later.key = k → earlier.key = k → earlier.counted = true →
    earlier.at_ + delay earlier.attempt ≤ earlier.notBefore ∧ earlier.notBefore ≤ later.at_

def countingContent : Content Nat where
  report _ _ stored := some stored
  manifestBody _ _ := 0
  evidence body stored := some (body + stored, none)
  receipt v := v
  verdict _ _ := .complete

def emptyWorld : World Nat where
  disk := ⟨none, ⟨fun _ => none, fun _ => none, none, none, none, none⟩, fun _ => none⟩
  work := ⟨none, []⟩
  process := none
  readings := []
  log := []
  returned := 0

/-- A run that dies in its first action. -/
def crash (at_ : Time) : List (Op Nat) :=
  [.start ⟨7, some (seconds 1000)⟩ true, .go at_, .turn ⟨at_, 0, false⟩, .go at_, .stop]

def crashed : World Nat :=
  runAll (apply countingContent) (crash 0 ++ crash (seconds 30) ++ crash (seconds 150)) emptyWorld

theorem runs_crashed : Runs countingContent emptyWorld crashed :=
  runAll_steps _ _ (admitted_of_forall (fun _ _ => trivial) _ _)

end FinDB.Fetcher.Historical
