import Mathlib.Tactic.Common
import FinDB.Fetcher.Historical

/-! # The budget of an operation

What the row on disk says of an operation covers what was invoked: the attempts written are
at least the invocations that count, and the retry floor written is at least theirs. A step of
the machine changes the row and the invocations in one of six ways (`Change`), and the
invariant is kept by each of them. -/
namespace FinDB.Fetcher.Historical
open FinDB.Lib

variable {Value : Type}

/-! ## Entries -/

@[simp] theorem enter_results (st : State Value) (k : Key) (a : Attempt) :
    (st.enter k a).results = st.results := rfl

@[simp] theorem pop_results (st : State Value) (k : Key) : (st.pop k).results = st.results := rfl

theorem entry_enter (st : State Value) (k j : Key) (a : Attempt) :
    (st.enter k a).entry j = if j = k then a else st.entry j := by
  unfold State.enter State.entry
  by_cases h : j = k <;> simp [h]

@[simp] theorem entry_enter_self (st : State Value) (k : Key) (a : Attempt) :
    (st.enter k a).entry k = a := by simp [entry_enter]

theorem entry_pop (st : State Value) {k j : Key} (h : j ≠ k) : (st.pop k).entry j = st.entry j := by
  simp [State.pop, State.entry, h]

/-- `setdefault` shows in no entry. -/
theorem entry_setdefault (st : State Value) (k j : Key) :
    (st.enter k (st.entry k)).entry j = st.entry j := by
  rw [entry_enter]
  split
  · rename_i h
    rw [h]
  · rfl

/-- Memory and row agree, but for the entry of `but`. -/
structure Held (disk st : State Value) (but : Option Key) : Prop where
  results : st.results = disk.results
  entries : ∀ j, but ≠ some j → st.entry j = disk.entry j

theorem Held.refl (st : State Value) (but : Option Key) : Held st st but := ⟨rfl, fun _ _ => rfl⟩

theorem Held.setdefault {disk st : State Value} (h : Held disk st none) (k : Key) :
    Held disk (st.enter k (st.entry k)) none :=
  ⟨h.results, fun j hj => (entry_setdefault st k j).trans (h.entries j hj)⟩

theorem Held.pop {disk st : State Value} (h : Held disk st none) (k : Key) :
    Held disk (st.pop k) (some k) :=
  ⟨h.results, fun j hj =>
    (entry_pop st fun e => hj (by rw [e])).trans (h.entries j (fun e => by cases e))⟩

/-! ## Stages -/

/-- The keys whose result is kept. -/
def Key.durable : Key → Bool
  | .terminal => false
  | .completion => false
  | _ => true

/-- The result of an operation is saved, or that of a later one. -/
def Results.settled (r : Results Value) : Key → Bool
  | .fetch p =>
    r.prepared.isSome || r.evidence.isSome || (r.reports p).isSome || (r.bytes p).isSome
  | .raw p => r.prepared.isSome || r.evidence.isSome || (r.reports p).isSome
  | .manifest => r.prepared.isSome || r.evidence.isSome
  | .delivery => r.receipt.isSome
  | .terminal => false
  | .completion => false

/-- A run only comes to an operation whose result is not saved. -/
theorem Results.stage_unsettled {r : Results Value} {k : Key} (h : r.stage = some k) :
    r.settled k = false := by
  unfold Results.stage at h
  split at h
  · rename_i hnone
    simp only [Bool.and_eq_true, Option.isNone_iff_eq_none] at hnone
    split at h
    · rename_i p hp
      have hreport := List.find?_some hp
      simp only [Option.isNone_iff_eq_none] at hreport
      cases hb : r.bytes p <;> rw [hb] at h <;> cases h <;>
        simp [Results.settled, hnone, hreport, hb]
    · cases h
      simp [Results.settled, hnone]
  · split at h
    · cases h
    · split at h
      · rename_i hreceipt
        cases h
        simpa [Results.settled] using hreceipt
      · cases h
        rfl

/-- `r` keeps all that `r'` kept. -/
def Results.Extends (r r' : Results Value) : Prop := ∀ k, r'.settled k = true → r.settled k = true

/-- The manifest body decides nothing. -/
theorem Results.stage_body (r : Results Value) (body : Option Value) :
    ({ r with manifestBody := body } : Results Value).stage = r.stage := rfl

theorem Results.settled_body (r : Results Value) (body : Option Value) (k : Key) :
    ({ r with manifestBody := body } : Results Value).settled k = r.settled k := by
  cases k <;> rfl

/-! ## The invariant -/

def counted (log : List Invocation) (k : Key) : Nat :=
  (log.filter fun i => decide (i.key = k) && i.counted).length

theorem counted_cons (i : Invocation) (log : List Invocation) (k : Key) :
    counted (i :: log) k = counted log k + if i.key = k ∧ i.counted = true then 1 else 0 := by
  unfold counted
  rw [List.filter_cons]
  by_cases h : i.key = k ∧ i.counted = true
  · simp [h]
  · rw [if_neg h, if_neg (by simpa [and_imp] using h), Nat.add_zero]

theorem counted_eq_zero {log : List Invocation} {k : Key} (h : ∀ i ∈ log, i.key ≠ k) :
    counted log k = 0 := by
  unfold counted
  rw [List.length_eq_zero_iff, List.filter_eq_nil_iff]
  intro i hi hk
  simp only [Bool.and_eq_true, decide_eq_true_eq] at hk
  exact h i hi hk.1

/-- The invocations are covered by what the row says. -/
structure Journaled (st : State Value) (log : List Invocation) : Prop where
  three : ∀ k, k.durable = true → counted log k ≤ 3
  charged : ∀ k, k.durable = true → st.results.settled k = false →
    counted log k ≤ (st.entry k).count
  staged : ∀ i ∈ log, i.key.durable = true → st.results.settled i.key = false →
    st.results.stage = some i.key

/-- The retry floors of the invocations are covered by what the row says. -/
structure Floored (st : State Value) (log : List Invocation) : Prop where
  floors : ∀ i ∈ log, i.key.durable = true → st.results.settled i.key = false →
    i.counted = true → i.notBefore ≤ (st.entry i.key).nextAt
  spaced : log.Pairwise fun later earlier => earlier.key = later.key →
    earlier.key.durable = true → earlier.counted = true → earlier.notBefore ≤ later.at_
  delayed : ∀ i ∈ log, i.at_ + delay i.attempt ≤ i.notBefore

/-- The floors of the counted invocations of a key have passed at `t`. -/
def Passed (log : List Invocation) (k : Key) (t : Time) : Prop :=
  ∀ i ∈ log, i.key = k → k.durable = true → i.counted = true → i.notBefore ≤ t

/-- A clock that never goes back. -/
def Steady (readings : List Time) : Prop := readings.Pairwise fun later earlier => earlier ≤ later

/-- An operation with a result stands where the run stands. -/
def Due (st : State Value) (k : Key) : Prop := k.durable = true → st.results.stage = some k

/-- What a process in the middle of its work owes to the row. -/
def Facing (w : World Value) (p : Process Value) : Prop :=
  match p.point with
  | .next => Held w.disk p.state none
  | .waiting k => Held w.disk p.state none ∧ Due w.disk k
  | .reserved k count at_ =>
    Held w.disk p.state none ∧ Due w.disk k ∧ count < 3 ∧ (w.disk.entry k).count = count + 1 ∧
      (w.disk.entry k).nextAt = at_ + delay count ∧ (k.durable = true → counted w.log k ≤ count) ∧
      at_ ∈ w.readings ∧ (Steady w.readings → Passed w.log k at_)
  | .acting k count at_ =>
    Held w.disk p.state none ∧ Due w.disk k ∧ count < 3 ∧ (w.disk.entry k).count = count + 1 ∧
      at_ ∈ w.readings ∧ ∃ rest, w.log = ⟨k, count, at_, true, at_ + delay count⟩ :: rest ∧
        (k.durable = true → counted rest k ≤ count) ∧ (Steady w.readings → Passed rest k at_)
  | .succeeded k _ => Held w.disk p.state (some k) ∧ Due w.disk k
  | .freezing _ _ => Held w.disk p.state (some .manifest) ∧ Due w.disk .manifest
  | .reserving _ _ => Held w.disk p.state (some .manifest) ∧ Due w.disk .manifest
  | .prepared _ _ => Held w.disk p.state (some .manifest) ∧ Due w.disk .manifest

structure Inv (w : World Value) : Prop where
  journaled : Journaled w.disk w.log
  floored : Steady w.readings → Floored w.disk w.log
  facing : ∀ p, w.process = some p → Facing w p

/-! ## What a step changes -/

/-- The six ways the row and the invocations change. -/
inductive Change (w w' : World Value) : Prop
  | quiet (settled : ∀ k, w'.disk.results.settled k = w.disk.results.settled k)
    (stage : w'.disk.results.stage = w.disk.results.stage)
    (entries : ∀ k, k.durable = true → w'.disk.entry k = w.disk.entry k) (log : w'.log = w.log)
  | reserve (k : Key) (count : Nat) (at_ : Time)
    (held : Held w.disk w'.disk (some k)) (due : Due w.disk k) (log : w'.log = w.log)
    (lt : count < 3) (before : (w.disk.entry k).count = count)
    (after : (w'.disk.entry k).count = count + 1)
    (floor : (w.disk.entry k).nextAt ≤ at_) (next : (w'.disk.entry k).nextAt = at_ + delay count)
  | dispatch (k : Key) (count : Nat) (at_ : Time) (held : Held w.disk w'.disk none)
    (due : Due w.disk k) (lt : count < 3) (after : (w.disk.entry k).count = count + 1)
    (next : (w.disk.entry k).nextAt = at_ + delay count)
    (log : w'.log = ⟨k, count, at_, true, at_ + delay count⟩ :: w.log)
    (room : k.durable = true → counted w.log k ≤ count)
    (passed : Steady w.readings → Passed w.log k at_)
  | refund (k : Key) (count : Nat) (i : Invocation) (rest : List Invocation)
    (held : Held w.disk w'.disk (some k)) (log : w.log = i :: rest) (key : i.key = k)
    (log' : w'.log = { i with counted := false } :: rest)
    (room : k.durable = true → counted rest k ≤ count)
    (after : (w'.disk.entry k).count = count)
    (passed : Steady w'.readings → Passed rest k (w'.disk.entry k).nextAt)
  | floor (k : Key) (i : Invocation) (rest : List Invocation)
    (held : Held w.disk w'.disk (some k)) (log : w.log = i :: rest) (key : i.key = k)
    (log' : w'.log = { i with notBefore := (w'.disk.entry k).nextAt } :: rest)
    (after : (w'.disk.entry k).count = (w.disk.entry k).count)
    (passed : Steady w'.readings → Passed rest k (w'.disk.entry k).nextAt ∧
      i.at_ + delay i.attempt ≤ (w'.disk.entry k).nextAt)
  | settle (log : w'.log = w.log)
    (stage : ∀ k, w.disk.results.stage = some k → k.durable = true →
      w'.disk.results.settled k = true)
    (extends_ : w'.disk.results.Extends w.disk.results)

theorem Change.extends_ {w w' : World Value} (h : Change w w') :
    w'.disk.results.Extends w.disk.results := by
  intro k hk
  cases h with
  | quiet settled => rwa [settled]
  | reserve _ _ _ held => rwa [held.results]
  | dispatch _ _ _ held => rwa [held.results]
  | refund _ _ _ _ held => rwa [held.results]
  | floor _ _ _ held => rwa [held.results]
  | settle _ _ hext => exact hext k hk

/-- Once the stage has its result, nothing that was invoked is open. -/
theorem Journaled.none_open {w w' : World Value} (hj : Journaled w.disk w.log)
    (stage : ∀ k, w.disk.results.stage = some k → k.durable = true →
      w'.disk.results.settled k = true)
    (hext : w'.disk.results.Extends w.disk.results) {i : Invocation} (hi : i ∈ w.log)
    (hd : i.key.durable = true) : w'.disk.results.settled i.key = true := by
  cases hopen : w.disk.results.settled i.key with
  | true => exact hext i.key hopen
  | false => exact stage i.key (hj.staged i hi hd hopen) hd

theorem Journaled.change {w w' : World Value} (hj : Journaled w.disk w.log) (h : Change w w') :
    Journaled w'.disk w'.log := by
  cases h with
  | quiet settled stage entries log =>
    rw [log]
    refine ⟨hj.three, fun k hk hs => ?_, fun i hi hd hs => ?_⟩
    · rw [settled] at hs
      rw [entries k hk]
      exact hj.charged k hk hs
    · rw [settled] at hs
      rw [stage]
      exact hj.staged i hi hd hs
  | reserve k count at_ held due log lt before after =>
    rw [log]
    refine ⟨hj.three, fun j hj' hs => ?_, fun i hi hd hs => ?_⟩
    · rw [held.results] at hs
      have hle := hj.charged j hj' hs
      by_cases he : j = k
      · subst he
        omega
      · rwa [held.entries j fun e => he (Option.some.inj e).symm]
    · rw [held.results] at hs ⊢
      exact hj.staged i hi hd hs
  | dispatch k count at_ held due lt after next log room =>
    rw [log]
    refine ⟨fun j hj' => ?_, fun j hj' hs => ?_, fun i hi hd hs => ?_⟩
    · rw [counted_cons]
      have hle := hj.three j hj'
      split
      · rename_i he
        obtain ⟨rfl, _⟩ := he
        have hroom := room hj'
        simp only at hroom ⊢
        omega
      · exact hle
    · rw [held.results] at hs
      rw [held.entries j (fun e => by cases e), counted_cons]
      have hle := hj.charged j hj' hs
      split
      · rename_i he
        obtain ⟨rfl, _⟩ := he
        have hroom := room hj'
        simp only at hroom after ⊢
        omega
      · exact hle
    · rw [held.results] at hs ⊢
      rcases List.mem_cons.mp hi with rfl | hi
      · exact due hd
      · exact hj.staged i hi hd hs
  | refund k count i rest held log key log' room after =>
    rw [log] at hj
    rw [log']
    have hrest : ∀ j, counted rest j ≤ counted (i :: rest) j := fun j => by
      rw [counted_cons]
      omega
    refine ⟨fun j hj' => ?_, fun j hj' hs => ?_, fun n hn hd hs => ?_⟩
    · rw [counted_cons, if_neg (by simp), Nat.add_zero]
      exact Nat.le_trans (hrest j) (hj.three j hj')
    · rw [held.results] at hs
      rw [counted_cons, if_neg (by simp), Nat.add_zero]
      by_cases he : j = k
      · subst he
        rw [after]
        exact room hj'
      · rw [held.entries j fun e => he (Option.some.inj e).symm]
        exact Nat.le_trans (hrest j) (hj.charged j hj' hs)
    · rw [held.results] at hs ⊢
      rcases List.mem_cons.mp hn with rfl | hn
      · exact hj.staged i List.mem_cons_self hd hs
      · exact hj.staged n (List.mem_cons_of_mem _ hn) hd hs
  | floor k i rest held log key log' after =>
    rw [log] at hj
    rw [log']
    have hsame : ∀ j, counted ({ i with notBefore := (w'.disk.entry k).nextAt } :: rest) j =
        counted (i :: rest) j := fun j => by rw [counted_cons, counted_cons]
    refine ⟨fun j hj' => ?_, fun j hj' hs => ?_, fun n hn hd hs => ?_⟩
    · rw [hsame]
      exact hj.three j hj'
    · rw [held.results] at hs
      rw [hsame]
      have hle := hj.charged j hj' hs
      by_cases he : j = k
      · subst he
        rwa [after]
      · rwa [held.entries j fun e => he (Option.some.inj e).symm]
    · rw [held.results] at hs ⊢
      rcases List.mem_cons.mp hn with rfl | hn
      · exact hj.staged i List.mem_cons_self hd hs
      · exact hj.staged n (List.mem_cons_of_mem _ hn) hd hs
  | settle log stage hext =>
    rw [log]
    have hno := fun i hi hd => hj.none_open (i := i) stage hext hi hd
    refine ⟨hj.three, fun k hk hs => ?_, fun i hi hd hs => ?_⟩
    · rw [counted_eq_zero fun i hi he => by
        subst he
        rw [hno i hi hk] at hs
        cases hs]
      exact Nat.zero_le _
    · rw [hno i hi hd] at hs
      cases hs

theorem delay_nonneg (count : Nat) : 0 ≤ delay count := by
  unfold delay seconds
  split <;> decide

theorem Floored.change {w w' : World Value} (hf : Floored w.disk w.log)
    (hj : Journaled w.disk w.log) (hs : Steady w.readings) (hs' : Steady w'.readings)
    (h : Change w w') : Floored w'.disk w'.log := by
  cases h with
  | quiet settled stage entries log =>
    rw [log]
    refine ⟨fun i hi hd ho hc => ?_, hf.spaced, hf.delayed⟩
    rw [settled] at ho
    rw [entries i.key hd]
    exact hf.floors i hi hd ho hc
  | reserve k count at_ held due log lt before after floor next =>
    rw [log]
    refine ⟨fun i hi hd ho hc => ?_, hf.spaced, hf.delayed⟩
    rw [held.results] at ho
    have hle := hf.floors i hi hd ho hc
    by_cases he : i.key = k
    · rw [he] at hle ⊢
      have hdelay := delay_nonneg count
      rw [next]
      exact Int.le_trans hle (Int.le_trans floor (Int.le_add_of_nonneg_right hdelay))
    · rwa [held.entries i.key fun e => he (Option.some.inj e).symm]
  | dispatch k count at_ held due lt after next log room passed =>
    rw [log]
    refine ⟨fun i hi hd ho hc => ?_, ?_, fun i hi => ?_⟩
    · rw [held.results] at ho
      rw [held.entries i.key (fun e => by cases e)]
      rcases List.mem_cons.mp hi with rfl | hi
      · exact Int.le_of_eq next.symm
      · exact hf.floors i hi hd ho hc
    · refine List.pairwise_cons.mpr ⟨fun i hi (he : i.key = k) hd hc => ?_, hf.spaced⟩
      exact passed hs i hi he (he ▸ hd) hc
    · rcases List.mem_cons.mp hi with rfl | hi
      · exact Int.le_refl _
      · exact hf.delayed i hi
  | refund k count i rest held log key log' room after passed =>
    rw [log] at hf
    rw [log']
    obtain ⟨hhead, hrest⟩ := List.pairwise_cons.mp hf.spaced
    refine ⟨fun n hn hd ho hc => ?_, List.pairwise_cons.mpr ⟨hhead, hrest⟩, fun n hn => ?_⟩
    · rw [held.results] at ho
      rcases List.mem_cons.mp hn with rfl | hn
      · cases hc
      · by_cases he : n.key = k
        · rw [he]
          exact passed hs' n hn he (he ▸ hd) hc
        · rw [held.entries n.key fun e => he (Option.some.inj e).symm]
          exact hf.floors n (List.mem_cons_of_mem _ hn) hd ho hc
    · rcases List.mem_cons.mp hn with rfl | hn
      · exact hf.delayed i List.mem_cons_self
      · exact hf.delayed n (List.mem_cons_of_mem _ hn)
  | floor k i rest held log key log' after passed =>
    rw [log] at hf
    rw [log']
    obtain ⟨hhead, hrest⟩ := List.pairwise_cons.mp hf.spaced
    refine ⟨fun n hn hd ho hc => ?_, List.pairwise_cons.mpr ⟨hhead, hrest⟩, fun n hn => ?_⟩
    · rw [held.results] at ho
      rcases List.mem_cons.mp hn with rfl | hn
      · exact Int.le_of_eq (congrArg (fun k => (w'.disk.entry k).nextAt) key).symm
      · by_cases he : n.key = k
        · rw [he]
          exact (passed hs').1 n hn he (he ▸ hd) hc
        · rw [held.entries n.key fun e => he (Option.some.inj e).symm]
          exact hf.floors n (List.mem_cons_of_mem _ hn) hd ho hc
    · rcases List.mem_cons.mp hn with rfl | hn
      · exact (passed hs').2
      · exact hf.delayed n (List.mem_cons_of_mem _ hn)
  | settle log stage hext =>
    rw [log]
    refine ⟨fun i hi hd ho _ => ?_, hf.spaced, hf.delayed⟩
    rw [hj.none_open stage hext hi hd] at ho
    cases ho

/-! ## Every step is one of them -/

/-- What is proved of each step. -/
structure Step (w w' : World Value) : Prop where
  change : Change w w'
  facing : ∀ p, w'.process = some p → Facing w' p
  readings : w.readings <:+ w'.readings

theorem Steady.of_suffix {rs rs' : List Time} (h : rs <:+ rs') (hs : Steady rs') : Steady rs :=
  List.Pairwise.sublist h.sublist hs

theorem Inv.step {w w' : World Value} (h : Inv w) (hs : Step w w') : Inv w' where
  journaled := h.journaled.change hs.change
  floored hsteady :=
    have hsteady' := Steady.of_suffix hs.readings hsteady
    (h.floored hsteady').change h.journaled hsteady' hsteady hs.change
  facing := hs.facing

theorem Change.of_held {w w' : World Value} (h : Held w.disk w'.disk none) (hl : w'.log = w.log) :
    Change w w' :=
  .quiet (fun k => by rw [h.results]) (by rw [h.results])
    (fun k _ => h.entries k fun e => by cases e) hl

theorem Change.of_disk {w w' : World Value} (h : w'.disk = w.disk) (hl : w'.log = w.log) :
    Change w w' :=
  .of_held (h ▸ Held.refl _ _) hl

theorem Step.stays {w w' : World Value} (h : w'.disk = w.disk) (hl : w'.log = w.log)
    (hr : w.readings <:+ w'.readings) (hf : ∀ p, w'.process = some p → Facing w' p) : Step w w' :=
  ⟨.of_disk h hl, hf, hr⟩

theorem Step.ended {w w' : World Value} (h : Held w.disk w'.disk none) (hl : w'.log = w.log)
    (hr : w.readings <:+ w'.readings) (hp : w'.process = none) : Step w w' :=
  ⟨.of_held h hl, fun p hsome => (by rw [hp] at hsome; cases hsome), hr⟩

theorem freeze_disk (w : World Value) (owner : Bool) (e : Option Value) :
    (w.freeze owner e).disk = w.disk ∧ (w.freeze owner e).log = w.log ∧
      (w.freeze owner e).readings = w.readings := by
  unfold World.freeze
  split <;> exact ⟨rfl, rfl, rfl⟩

theorem Due.of_stage {st : State Value} {k : Key} (h : st.results.stage = some k) : Due st k :=
  fun _ => h

theorem Due.open {st : State Value} {k : Key} (h : Due st k) (hk : k.durable = true) :
    st.results.settled k = false :=
  Results.stage_unsettled (h hk)

/-! ### Starting -/

theorem restored_cases {owner : Bool} {st st' : State Value} {work : Work Value}
    (h : restored owner st work = some st') :
    st' = st ∨ st.results.prepared = none ∧ ∃ evidence request,
      st' = { st with results :=
        { st.results with prepared := some request, evidence := some evidence } } := by
  unfold restored at h
  split at h
  · rename_i hc
    simp only [Bool.and_eq_true, Option.isNone_iff_eq_none] at hc
    split at h
    · rename_i evidence request _ _
      cases h
      exact Or.inr ⟨hc.2, evidence, request, rfl⟩
    · cases h
    · cases h
      exact Or.inl rfl
  · cases h
    exact Or.inl rfl

/-- A request and its evidence settle all that comes before the delivery. -/
theorem settled_prepared (r : Results Value) (evidence request : Value) {k : Key}
    (h : r.settled k = true ∨ k.durable = true ∧ k ≠ .delivery) :
    ({ r with prepared := some request, evidence := some evidence } : Results Value).settled k =
      true := by
  cases k with
  | delivery =>
    rcases h with h | h
    · exact h
    · exact absurd rfl h.2
  | fetch _ => rfl
  | raw _ => rfl
  | manifest => rfl
  | terminal =>
    rcases h with h | h
    · exact h
    · cases h.1
  | completion =>
    rcases h with h | h
    · exact h
    · cases h.1

theorem stage_delivery {r : Results Value} (h : r.stage = some .delivery) :
    r.prepared.isSome = true := by
  unfold Results.stage at h
  split at h
  · split at h
    · rename_i p _
      cases hb : (r.bytes p).isNone <;> simp [hb] at h
    · cases h
  · split at h
    · cases h
    · rename_i hno
      simp only [Bool.or_eq_true, not_or, Bool.not_eq_true, Option.isNone_eq_false_iff] at hno
      exact hno.2

theorem step_start [DecidableEq Value] (w : World Value) (item : Item Value) (owner : Bool) (h : Inv w) :
    Step w (w.start item owner) := by
  unfold World.start
  split
  · exact .stays rfl rfl (List.suffix_refl _) h.facing
  split
  · exact .stays rfl rfl (List.suffix_refl _) h.facing
  split
  · exact .stays rfl rfl (List.suffix_refl _) h.facing
  · rename_i st hst
    rcases restored_cases hst with rfl | ⟨hnone, evidence, request, rfl⟩
    · rw [if_neg (by cases w.disk.results.prepared <;> simp)]
      refine .stays rfl rfl (List.suffix_refl _) fun p hp => ?_
      cases hp
      exact ⟨rfl, fun _ _ => rfl⟩
    · have hnone' : w.disk.results.prepared = none := hnone
      rw [if_pos (by simp [hnone'])]
      refine ⟨.settle rfl (fun k hk hd => ?_) fun k hk => ?_, fun p hp => ?_, List.suffix_refl _⟩
      · refine settled_prepared w.disk.results evidence request (Or.inr ⟨hd, ?_⟩)
        rintro rfl
        have hsome := stage_delivery hk
        rw [hnone'] at hsome
        cases hsome
      · exact settled_prepared w.disk.results evidence request (Or.inl hk)
      · cases hp
        exact Held.refl _ _

theorem step_startComplete (w : World Value) (item : Item Value) (owner : Bool) (h : Inv w) :
    Step w (w.startComplete item owner) := by
  unfold World.startComplete
  split
  · exact .stays rfl rfl (List.suffix_refl _) h.facing
  · refine .stays rfl rfl (List.suffix_refl _) fun p hp => ?_
    cases hp
    exact ⟨(Held.refl _ _).setdefault _, fun hd => by cases hd⟩

/-! ### Between operations -/

theorem facing_enter {w : World Value} {p p' : Process Value} {st : State Value} {k : Key}
    (hst : Held w.disk st none) (hdue : Due w.disk k)
    (h : (w.enter p st k).process = some p') : Facing (w.enter p st k) p' := by
  cases h
  exact ⟨hst.setdefault k, hdue⟩

theorem step_enter_freeze {w : World Value} {p : Process Value} {k : Key} {owner : Bool}
    {e : Option Value} (hheld : Held w.disk p.state none) (hdue : Due w.disk k) :
    Step w ((w.freeze owner e).enter p p.state k) := by
  obtain ⟨hd, hl, hr⟩ := freeze_disk w owner e
  refine .stays hd hl (hr ▸ List.suffix_refl _) fun p' hp => ?_
  exact facing_enter (hd ▸ hheld) (hd ▸ hdue) hp

theorem step_advance {content : Content Value} {w : World Value} {p : Process Value} (now : Time)
    (hheld : Held w.disk p.state none) : Step w (w.advance content p now) := by
  have hstage : p.state.results.stage = w.disk.results.stage := by rw [hheld.results]
  unfold World.advance
  dsimp only
  split
  · rename_i hk
    split
    · refine ⟨.quiet (fun k => ?_) ?_ (fun k _ => hheld.entries k fun e => by cases e) rfl,
        fun p' hp => ?_, List.suffix_cons _ _⟩
      · exact (Results.settled_body _ _ k).trans (by rw [hheld.results])
      · exact (Results.stage_body _ _).trans hstage
      · cases hp
        exact Held.refl _ _
    · exact .stays rfl rfl (List.suffix_refl _) fun p' hp =>
        facing_enter hheld (.of_stage (hstage ▸ hk)) hp
  · rename_i hk
    exact step_enter_freeze hheld (.of_stage (hstage ▸ hk))
  · exact step_enter_freeze hheld fun hd => by cases hd
  · rename_i hk
    exact .stays rfl rfl (List.suffix_refl _) fun p' hp =>
      facing_enter hheld (.of_stage (hstage ▸ hk)) hp
  · split
    · exact .ended (Held.refl _ _) rfl (List.suffix_refl _) rfl
    · obtain ⟨hd, hl, hr⟩ := freeze_disk w p.owner p.state.results.evidence
      exact .ended (hd ▸ Held.refl _ _) hl (hr ▸ List.suffix_refl _) rfl

/-! ### In the loop -/

theorem gate_reserve {item : Item Value} {owner : Bool} {k : Key} {a : Attempt} {r : Reading}
    {count : Nat} (h : gate item owner k a r = .reserve count) :
    a.count = count ∧ count < 3 ∧ a.nextAt ≤ r.now := by
  unfold gate at h
  split at h
  · cases h
  split at h
  · cases h
  split at h
  · cases h
  rename_i hready
  split at h
  · cases h
  · rename_i hcount
    cases h
    exact ⟨rfl, Nat.not_le.mp hcount,
      Int.le_trans (Int.le_max_left _ _) (Int.not_lt.mp hready)⟩

theorem step_turn {w : World Value} {p : Process Value} {k : Key} (r : Reading) (h : Inv w)
    (hp : w.process = some p) (hpoint : p.point = .waiting k) : Step w (w.turn p k r) := by
  have hfacing := h.facing p hp
  unfold Facing at hfacing
  rw [hpoint] at hfacing
  obtain ⟨hheld, hdue⟩ := hfacing
  have hentry : p.state.entry k = w.disk.entry k := hheld.entries k fun e => by cases e
  unfold World.turn
  split
  · refine .stays rfl rfl (List.suffix_cons _ _) fun p' hp' => ?_
    cases hp.symm.trans hp'
    unfold Facing
    rw [hpoint]
    exact ⟨hheld, hdue⟩
  · rename_i count hgate
    obtain ⟨hcount, hlt, hnow⟩ := gate_reserve hgate
    rw [hentry] at hcount hnow
    refine ⟨.reserve k count r.now ⟨hheld.results, fun j hj => ?_⟩ hdue rfl hlt hcount ?_ hnow ?_,
      fun p' hp' => ?_, List.suffix_cons _ _⟩
    · change (p.state.enter k _).entry j = _
      rw [entry_enter, if_neg fun e => hj (by rw [e])]
      exact hheld.entries j fun e => by cases e
    · change ((p.state.enter k _).entry k).count = _
      rw [entry_enter_self]
      rfl
    · change ((p.state.enter k _).entry k).nextAt = _
      rw [entry_enter_self]
    · cases hp'
      refine ⟨Held.refl _ _, fun hd => ?_, hlt, ?_, ?_, fun hd => ?_, List.mem_cons_self,
        fun hs i hi hk hd hc => ?_⟩
      · exact (congrArg Results.stage hheld.results).trans (hdue hd)
      · change ((p.state.enter k _).entry k).count = _
        rw [entry_enter_self]
        rfl
      · change ((p.state.enter k _).entry k).nextAt = _
        rw [entry_enter_self]
      · exact hcount ▸ h.journaled.charged k hd (hdue.open hd)
      · have hfloored := h.floored (Steady.of_suffix (List.suffix_cons _ _) hs)
        subst hk
        exact Int.le_trans (hfloored.floors i hi hd (hdue.open hd) hc) hnow
  · exact .ended (Held.refl _ _) rfl (List.suffix_cons _ _) rfl

theorem step_dispatch {w : World Value} {p : Process Value} {k : Key} {count : Nat} {at_ : Time}
    (h : Inv w) (hp : w.process = some p) (hpoint : p.point = .reserved k count at_) :
    Step w (w.dispatch p k count at_) := by
  have hfacing := h.facing p hp
  unfold Facing at hfacing
  rw [hpoint] at hfacing
  obtain ⟨hheld, hdue, hlt, hcount, hnext, hroom, hat, hpassed⟩ := hfacing
  refine ⟨.dispatch k count at_ (Held.refl _ _) hdue hlt hcount hnext rfl hroom hpassed,
    fun p' hp' => ?_, List.suffix_refl _⟩
  cases hp'
  exact ⟨hheld, hdue, hlt, hcount, hat, w.log, rfl, hroom, hpassed⟩

/-! ### The end of an action -/

/-- What is written of a key changes nothing else. -/
theorem Held.enter {disk st : State Value} (h : Held disk st none) (k : Key) (a : Attempt) :
    Held disk (st.enter k a) (some k) :=
  ⟨h.results, fun j hj => by
    rw [entry_enter, if_neg fun e => hj (by rw [e])]
    exact h.entries j fun e => by cases e⟩

theorem Due.enter {disk st : State Value} {k : Key} (h : Due disk k) (hheld : Held disk st none)
    (j : Key) (a : Attempt) : Due (st.enter j a) k :=
  fun hd => (congrArg Results.stage hheld.results).trans (h hd)

theorem Passed.le {log : List Invocation} {k : Key} {t u : Time} (h : Passed log k t) (hle : t ≤ u) :
    Passed log k u :=
  fun i hi hk hd hc => Int.le_trans (h i hi hk hd hc) hle

theorem step_finish {w : World Value} {p : Process Value} {k : Key} {count : Nat} {at_ : Time}
    (outcome : Outcome Value) (now cooldown : Time) (h : Inv w) (hp : w.process = some p)
    (hpoint : p.point = .acting k count at_) : Step w (w.finish p k count outcome now cooldown) := by
  have hfacing := h.facing p hp
  unfold Facing at hfacing
  rw [hpoint] at hfacing
  obtain ⟨hheld, hdue, hlt, hcount, hat, rest, hlog, hroom, hpassed⟩ := hfacing
  -- a reading after the start of the action is not before it
  have hnow : Steady (now :: w.readings) → at_ ≤ now := fun hs =>
    (List.pairwise_cons.mp hs).1 at_ hat
  have hrest : Steady (now :: w.readings) → Passed rest k at_ := fun hs =>
    hpassed (Steady.of_suffix (List.suffix_cons _ _) hs)
  have hentry : p.state.entry k = w.disk.entry k := hheld.entries k fun e => by cases e
  unfold World.finish
  dsimp only
  split
  · refine .stays rfl rfl (List.suffix_refl _) fun p' hp' => ?_
    cases hp'
    exact ⟨hheld.pop k, hdue⟩
  rename_i f retryAfter
  split
  · -- the attempt is taken back
    have hstep : ∀ w' : World Value,
        w'.disk = p.state.enter k { p.state.entry k with
          attempts := some count, nextAt := max (now + seconds 60) cooldown } →
        w'.log = ⟨k, count, at_, false, at_ + delay count⟩ :: rest →
        w'.readings = now :: w.readings →
        (∀ p', w'.process = some p' → Facing w' p') → Step w w' := by
      intro w' hd hl hr hf
      have hnext : (w'.disk.entry k).nextAt = max (now + seconds 60) cooldown := by
        rw [hd, entry_enter_self]
      refine ⟨.refund k count _ rest (hd ▸ hheld.enter k _) hlog rfl hl hroom ?_ fun hs => ?_, hf,
        hr ▸ List.suffix_cons _ _⟩
      · rw [hd, entry_enter_self]
        rfl
      · rw [hr] at hs
        rw [hnext]
        refine (hrest hs).le (Int.le_trans (hnow hs) (Int.le_trans ?_ (Int.le_max_left _ _)))
        exact Int.le_add_of_nonneg_right (by decide)
    split
    · exact hstep _ rfl (by simp [World.amend, World.save, World.reads, World.ends, hlog]) rfl
        fun p' hp' => by cases hp'
    · refine hstep _ rfl (by simp [World.amend, World.save, World.reads, World.at, hlog]) rfl
        fun p' hp' => ?_
      cases hp'
      exact ⟨Held.refl _ _, hdue.enter hheld k _⟩
  split
  · -- the attempt stays, with the floor of its failure
    have hstep : ∀ w' : World Value,
        w'.disk = p.state.enter k { p.state.entry k with
          nextAt := now + max (delay count) retryAfter } →
        w'.log = ⟨k, count, at_, true, now + max (delay count) retryAfter⟩ :: rest →
        w'.readings = now :: w.readings →
        (∀ p', w'.process = some p' → Facing w' p') → Step w w' := by
      intro w' hd hl hr hf
      have hnext : (w'.disk.entry k).nextAt = now + max (delay count) retryAfter := by
        rw [hd, entry_enter_self]
      have hfloor : now + delay count ≤ now + max (delay count) retryAfter :=
        Int.add_le_add_left (Int.le_max_left _ _) _
      refine ⟨.floor k _ rest (hd ▸ hheld.enter k _) hlog rfl (hnext ▸ hl) ?_ fun hs => ?_, hf,
        hr ▸ List.suffix_cons _ _⟩
      · rw [hd, entry_enter_self, ← hentry]
        rfl
      · rw [hr] at hs
        rw [hnext]
        have hle := Int.le_trans (Int.add_le_add_right (hnow hs) (delay count)) hfloor
        exact ⟨(hrest hs).le (Int.le_trans (Int.le_add_of_nonneg_right (delay_nonneg count)) hle),
          hle⟩
    split
    · exact hstep _ rfl (by simp [World.amend, World.save, World.reads, World.ends, hlog]) rfl
        fun p' hp' => by cases hp'
    · refine hstep _ rfl (by simp [World.amend, World.save, World.reads, World.at, hlog]) rfl
        fun p' hp' => ?_
      cases hp'
      exact ⟨Held.refl _ _, hdue.enter hheld k _⟩
  · exact .ended hheld rfl (List.suffix_refl _) rfl

/-! ### The result of an action -/

/-- The result of the stage is saved and the run goes on. -/
theorem step_settle {w : World Value} {p : Process Value} {k : Key} {r : Results Value}
    (hdue : Due w.disk k) (hk : k.durable = true) (hsettled : r.settled k = true)
    (hext : r.Extends w.disk.results) :
    Step w ((w.save { p.state with results := r }).at p { p.state with results := r } .next) := by
  refine ⟨.settle rfl (fun j hj _ => ?_) hext, fun p' hp' => ?_, List.suffix_refl _⟩
  · rw [hdue hk] at hj
    cases hj
    exact hsettled
  · cases hp'
    exact Held.refl _ _

theorem step_keep {content : Content Value} {w : World Value} {p : Process Value} {k : Key}
    {v : Value} (hheld : Held w.disk p.state (some k)) (hdue : Due w.disk k) :
    Step w (w.keep content p k v) := by
  have hresults := hheld.results
  have hends : Step w w.ends := .ended (Held.refl _ _) rfl (List.suffix_refl _) rfl
  -- a key without a durable result is only taken out of the row
  have hquiet : k.durable = false → ∀ w' : World Value, w'.disk = p.state → w'.log = w.log →
      w'.readings = w.readings → (∀ p', w'.process = some p' → Facing w' p') → Step w w' := by
    intro hk w' hd hl hr hf
    refine ⟨.quiet (fun j => by rw [hd, hresults]) (by rw [hd, hresults]) (fun j hj => ?_) hl, hf,
      hr ▸ List.suffix_refl _⟩
    rw [hd]
    refine hheld.entries j fun e => ?_
    cases e
    rw [hk] at hj
    cases hj
  unfold World.keep
  dsimp only
  split
  · rename_i product
    refine step_settle hdue rfl (by simp [Results.settled]) fun j hj => ?_
    rw [← hresults] at hj
    cases j with
    | fetch q =>
      by_cases hq : q = product
      · simp [Results.settled, hq]
      · simpa [Results.settled, hq] using hj
    | _ => exact hj
  · rename_i product
    split
    · exact hends
    · refine step_settle hdue rfl (by simp [Results.settled]) fun j hj => ?_
      rw [← hresults] at hj
      cases j with
      | fetch q =>
        by_cases hq : q = product
        · simp [Results.settled, hq]
        · simpa [Results.settled, hq] using hj
      | raw q =>
        by_cases hq : q = product
        · simp [Results.settled, hq]
        · simpa [Results.settled, hq] using hj
      | _ => exact hj
  · split
    · exact hends
    · refine step_settle hdue rfl (by simp [Results.settled]) fun j hj => ?_
      rw [← hresults] at hj
      cases j with
      | delivery => exact hj
      | terminal => exact hj
      | completion => exact hj
      | _ => simp [Results.settled]
    · refine .stays rfl rfl (List.suffix_refl _) fun p' hp' => ?_
      cases hp'
      cases p.owner <;> exact ⟨hheld, hdue⟩
  · refine step_settle hdue rfl rfl fun j hj => ?_
    rw [← hresults] at hj
    cases j with
    | delivery => rfl
    | _ => exact hj
  · split
    · refine hquiet rfl _ rfl rfl rfl fun p' hp' => ?_
      cases hp'
      exact ⟨(Held.refl _ _).setdefault _, fun hd => by cases hd⟩
    · exact hquiet rfl _ rfl rfl rfl fun p' hp' => by cases hp'
    · exact hquiet rfl _ rfl rfl rfl fun p' hp' => by cases hp'
  · exact hquiet rfl _ rfl rfl rfl fun p' hp' => by cases hp'

theorem step_apply [DecidableEq Value] {content : Content Value} (op : Op Value) (w : World Value)
    (h : Inv w) : Step w (apply content op w) := by
  have hsame : Step w w := .stays rfl rfl (List.suffix_refl _) h.facing
  cases op with
  | start item owner => exact step_start w item owner h
  | complete item owner => exact step_startComplete w item owner h
  | stop => exact .ended (Held.refl _ _) rfl (List.suffix_refl _) rfl
  | go now =>
    simp only [apply]
    split
    · exact hsame
    rename_i p hp
    have hfacing := h.facing p hp
    unfold Facing at hfacing
    split <;> rename_i hpoint <;> simp only [hpoint] at hfacing
    · exact step_advance now hfacing
    · exact step_dispatch h hp hpoint
    · exact step_keep hfacing.1 hfacing.2
    · obtain ⟨hd, hl, hr⟩ := freeze_disk w p.owner (some _)
      refine .stays hd hl (hr ▸ List.suffix_refl _) fun p' hp' => ?_
      cases hp'
      exact ⟨hd ▸ hfacing.1, hd ▸ hfacing.2⟩
    · refine .stays rfl rfl (List.suffix_refl _) fun p' hp' => ?_
      cases hp'
      exact hfacing
    · refine step_settle hfacing.2 rfl (by rfl) fun j hj => ?_
      rw [← hfacing.1.results] at hj
      exact settled_prepared _ _ _ (Or.inl hj)
    · exact hsame
  | turn r =>
    simp only [apply]
    split
    · exact hsame
    rename_i p hp
    split
    · rename_i k hpoint
      exact step_turn r h hp hpoint
    · exact hsame
  | finish outcome now cooldown =>
    simp only [apply]
    split
    · exact hsame
    rename_i p hp
    split
    · rename_i k count at_ hpoint
      exact step_finish outcome now cooldown h hp hpoint
    · exact hsame

end FinDB.Fetcher.Historical
