import FinDB.Lib.Machine
import FinDB.Fetcher.Identity
import FinDB.Fetcher.Pruning
import FinDB.Fetcher.Reserve

/-! # The floors of an account

The floor of an account is kept twice, as pacing and as a cooldown with its reason. All
writers raise both at once. A merge raises the pacing of its target on the way, but to the
floor that it then records for both. -/
namespace FinDB.Fetcher
open FinDB.Lib

/-! ## The writers -/

/-- What may happen to the ledger. -/
inductive Write where
  | call (c : Call)
  /-- `pace_from_completion`. -/
  | pace (account : Account) (now : Instant) (interval : Nat)
  /-- `FullMarketState.rate_limited`. -/
  | rateLimited (account : Account) (w : Window) (until_ : Instant)
  | merge (m : Merge) (order : List Account → List Account)
      (permutes : ∀ as, (order as).Perm as) (holdsAccountLock : Bool)
  | claimPrune (now : Instant) (batch : Nat)
  | pruneBatch (p : Prune) (b : Batch)

/-- `UPDATE full_quota SET blocked_until=MAX(blocked_until,?)`. -/
def Ledger.block (l : Ledger) (account : Account) (w : Window) (until_ : Instant) : Ledger :=
  { l with
    quota := l.quota.modify (account, w) fun r => { r with
      blockedUntil := max r.blockedUntil until_ } }

def Ledger.write (l : Ledger) : Write → Ledger
  | .call c => (l.call c).1
  | .pace account now interval => l.recordFloor account (now + interval) .pacing
  | .rateLimited account w until_ => (l.recordFloor account until_ .rateLimited).block account w until_
  | .merge m order _ holdsAccountLock =>
    match m.mergeIdentity order holdsAccountLock l with
    | .ok (l', _) => l'
    | .error _ => l
  | .claimPrune now batch => (l.claimPrune now batch).elim l (·.1)
  | .pruneBatch p b => l.pruneBatch p b

/-- The pacing floors that a writer records. -/
def Write.paces (l : Ledger) (account : Account) (until_ : Instant) : Write → Prop
  | .call (.reserve now r) => account = r.account ∧ until_ = now + r.interval
  | .call (.finish now op (some _) _ _) => account = op.account ∧ until_ = now + op.interval
  | .pace account' now interval => account = account' ∧ until_ = now + interval
  | .merge m _ _ _ => account = m.target l ∧ ∃ alias_ ∈ m.aliases l, ∃ c,
      l.cooldown.find? alias_ = some c ∧ c.reason = .pacing ∧ until_ = c.notBefore
  | _ => False

/-- A file from before the cooldowns, or with none that its pacing lacks. -/
def Ledger.Legacy (l : Ledger) : Prop :=
  ∀ a c, l.cooldown.find? a = some c → ∃ p, l.pacing.find? a = some p ∧ c.notBefore ≤ p.nextAt

/-- Later ledgers of a store. -/
def Ledger.Later (l l' : Ledger) : Prop := StepsIf (fun w l => Ledger.write l w) (fun _ _ => True) l l'

/-- The ledgers of a store that was opened. -/
def Ledger.Stored (l : Ledger) : Prop := ∃ l₀ : Ledger, l₀.Legacy ∧ l₀.opened.Later l

/-! ## Agreement -/

/-- Every account has both floors or none, and they are the same. -/
def Ledger.Agreed (l : Ledger) : Prop :=
  ∀ a, (l.pacing.find? a).map (·.nextAt) = (l.cooldown.find? a).map (·.notBefore)

/-- The floors are the same rows. -/
def SameFloorRows (l l' : Ledger) : Prop :=
  ∀ a, l'.pacing.find? a = l.pacing.find? a ∧ l'.cooldown.find? a = l.cooldown.find? a

section
variable {l l' : Ledger} {a b : Account} {u : Instant} {reason : FloorReason}

theorem SameFloorRows.refl (l : Ledger) : SameFloorRows l l := fun _ => ⟨rfl, rfl⟩

theorem SameFloorRows.of_tables (hp : l'.pacing = l.pacing) (hc : l'.cooldown = l.cooldown) :
    SameFloorRows l l' := fun a => by rw [hp, hc]; exact ⟨rfl, rfl⟩

theorem SameFloorRows.agreed (h : SameFloorRows l l') (hl : l.Agreed) : l'.Agreed := by
  intro a
  rw [(h a).1, (h a).2]
  exact hl a

theorem SameFloorRows.nextAt (h : SameFloorRows l l') (a : Account) : l'.nextAt a = l.nextAt a := by
  unfold Ledger.nextAt
  rw [(h a).1]

theorem Ledger.Agreed.eq (h : l.Agreed) (a : Account) : l.nextAt a = l.notBefore a := by
  have ha := h a
  unfold Ledger.nextAt Ledger.notBefore
  cases hp : l.pacing.find? a <;> cases hc : l.cooldown.find? a <;> rw [hp, hc] at ha
  · rfl
  · cases ha
  · cases ha
  · exact Option.some.inj ha

/-- The pacing of an account after `record_floor`. -/
theorem pacing_recordFloor (l : Ledger) (a : Account) (u : Instant) (reason : FloorReason)
    (b : Account) : (l.recordFloor a u reason).pacing.find? b =
      if a = b then some ((l.pacing.find? b).elim ⟨a, u⟩ fun r => { r with nextAt := max r.nextAt u })
      else l.pacing.find? b := by
  unfold Ledger.recordFloor
  exact Table.find?_upsert

/-- `record_floor` keeps both floors together. -/
theorem Ledger.Agreed.recordFloor (h : l.Agreed) (a : Account) (u : Instant)
    (reason : FloorReason) : (l.recordFloor a u reason).Agreed := by
  intro b
  rw [pacing_recordFloor, find?_recordFloor]
  split
  · have hb := h b
    unfold floored
    cases hp : l.pacing.find? b <;> cases hc : l.cooldown.find? b <;> rw [hp, hc] at hb
    · rfl
    · cases hb
    · cases hb
    · simp only [Option.map_some, Option.some.injEq] at hb
      simp only [Option.elim_some, Option.map_some, hb]
  · exact h b

/-! ## Recorded floors -/

/-- `l'` comes from `l` by recording floors; those for pacing are among `paces`. -/
inductive Raises (paces : Account → Instant → Prop) (l : Ledger) : Ledger → Prop where
  | same {l' : Ledger} (h : SameFloorRows l l') : Raises paces l l'
  | record {m l' : Ledger} (h : Raises paces l m) (a : Account) (u : Instant) (reason : FloorReason)
      (hpace : reason = .pacing → paces a u) (hsame : SameFloorRows (m.recordFloor a u reason) l') :
      Raises paces l l'

variable {paces : Account → Instant → Prop}

/-- Rows that are the same add nothing. -/
theorem Raises.congr {m : Ledger} (h : Raises paces l m) (hrows : SameFloorRows m l') :
    Raises paces l l' := by
  cases h with
  | same h => exact Raises.same fun a => ⟨(hrows a).1.trans (h a).1, (hrows a).2.trans (h a).2⟩
  | record h a u reason hpace hs =>
    exact h.record a u reason hpace
      fun a => ⟨(hrows a).1.trans (hs a).1, (hrows a).2.trans (hs a).2⟩

theorem Raises.one (a : Account) (u : Instant) (reason : FloorReason)
    (hpace : reason = .pacing → paces a u) (hsame : SameFloorRows (l.recordFloor a u reason) l') :
    Raises paces l l' :=
  (Raises.same (SameFloorRows.refl l)).record a u reason hpace hsame

theorem Raises.agreed (h : Raises paces l l') (hl : l.Agreed) : l'.Agreed := by
  induction h with
  | same h => exact h.agreed hl
  | record _ a u reason _ hsame ih => exact hsame.agreed (ih.recordFloor a u reason)

theorem Raises.nextAt_le (h : Raises paces l l') (a : Account) : l.nextAt a ≤ l'.nextAt a := by
  induction h with
  | same h => exact (h.nextAt a).ge
  | record _ b u reason _ hsame ih =>
    rw [hsame.nextAt, Ledger.nextAt_recordFloor]
    split
    · exact ih.trans (le_max_left _ _)
    · exact ih

/-- A pacing reason was there before, or the floor is one of those recorded for pacing. -/
theorem Raises.pacing (h : Raises paces l l') {c' : Cooldown} (hc' : l'.cooldown.find? a = some c')
    (hreason : c'.reason = .pacing) :
    (∃ c, l.cooldown.find? a = some c ∧ c.reason = .pacing) ∨ paces a c'.notBefore := by
  induction h generalizing c' with
  | same h =>
    rw [(h a).2] at hc'
    exact Or.inl ⟨c', hc', hreason⟩
  | @record m _ _ b u reason hpace hsame ih =>
    rw [(hsame a).2, find?_recordFloor] at hc'
    split at hc'
    · rename_i hb
      subst hb
      cases hm : m.cooldown.find? b with
      | none =>
        rw [hm] at hc'
        cases hc'
        exact Or.inr (hpace hreason)
      | some c =>
        rw [hm] at hc'
        cases hc'
        simp only [floored, Option.elim_some] at hreason ⊢
        by_cases hle : c.notBefore ≤ u
        · rw [if_pos hle] at hreason
          rw [max_eq_right hle]
          exact Or.inr (hpace hreason)
        · rw [if_neg hle] at hreason
          rw [max_eq_left (le_of_not_ge hle)]
          exact ih hm hreason
    · exact ih hc' hreason

/-! ## The writers record floors -/

theorem pacing_raisePacing (l : Ledger) (a : Account) (u : Instant) (b : Account) :
    (l.raisePacing a u).pacing.find? b =
      if a = b then some ((l.pacing.find? b).elim ⟨a, u⟩ fun r => { r with nextAt := max r.nextAt u })
      else l.pacing.find? b := by
  unfold Ledger.raisePacing
  exact Table.find?_upsert

/-- Raising the pacing first adds nothing to the floor that follows. -/
theorem sameFloorRows_raisePacing (l : Ledger) (a : Account) (u : Instant) (reason : FloorReason) :
    SameFloorRows (l.recordFloor a u reason) ((l.raisePacing a u).recordFloor a u reason) := by
  intro b
  refine ⟨?_, ?_⟩
  · rw [pacing_recordFloor, pacing_recordFloor, pacing_raisePacing]
    split
    · cases l.pacing.find? b with
      | none => simp
      | some r => simp
    · rfl
  · rw [find?_recordFloor, find?_recordFloor]
    rfl

/-- A transfer records the cooldown of the alias, if there is one. -/
theorem transfer_floors (hl : l.Agreed) (alias_ target : Account) :
    (l.cooldown.find? alias_ = none ∧ SameFloorRows l (l.transfer alias_ target)) ∨
      ∃ c, l.cooldown.find? alias_ = some c ∧
        SameFloorRows (l.recordFloor target c.notBefore c.reason) (l.transfer alias_ target) := by
  have halias := hl alias_
  unfold Ledger.transfer
  cases hp : l.pacing.find? alias_ <;> cases hc : l.cooldown.find? alias_ <;> rw [hp, hc] at halias
  · refine Or.inl ⟨rfl, ?_⟩
    rw [Ledger.carried_eq]
    exact SameFloorRows.of_tables rfl rfl
  · cases halias
  · cases halias
  · rename_i p c
    simp only [Option.map_some, Option.some.injEq] at halias
    refine Or.inr ⟨c, rfl, ?_⟩
    have h := sameFloorRows_raisePacing l target c.notBefore c.reason
    rw [Ledger.carried_eq]
    simp only [halias]
    exact h

/-- An alias at most records its cooldown for the target. -/
theorem absorb_floors (m : Merge) (target : Account) (hl : l.Agreed) (alias_ : Account) :
    SameFloorRows l (m.absorb target l alias_) ∨ ∃ c, l.cooldown.find? alias_ = some c ∧
      SameFloorRows (l.recordFloor target c.notBefore c.reason) (m.absorb target l alias_) := by
  rcases Merge.absorb_cases m target l alias_ with ⟨_, audit, _, _, heq⟩ | ⟨_, _, heq⟩
  · rw [heq]
    have hl' : ({ l with audit := audit } : Ledger).Agreed := hl
    rcases transfer_floors hl' alias_ target with ⟨_, h⟩ | ⟨c, hc, h⟩
    · exact Or.inl h
    · exact Or.inr ⟨c, hc, h⟩
  · rw [heq]
    exact Or.inl (SameFloorRows.of_tables rfl rfl)

/-- The cooldown of another account is left alone. -/
theorem cooldown_absorb (m : Merge) {target : Account} (hl : l.Agreed) (alias_ : Account)
    (hb : b ≠ target) : (m.absorb target l alias_).cooldown.find? b = l.cooldown.find? b := by
  rcases absorb_floors m target hl alias_ with h | ⟨c, _, h⟩
  · exact (h b).2
  · rw [(h b).2, find?_recordFloor, if_neg hb.symm]

/-- The aliases one after the other; none of them is the target. -/
theorem raises_absorbAll (m : Merge) (target : Account) (as : List Account) (l₀ : Ledger)
    (has : ∀ b ∈ as, b ≠ target)
    (hpaces : ∀ b ∈ as, ∀ c, l₀.cooldown.find? b = some c → c.reason = .pacing →
      paces target c.notBefore)
    (hl : l.Agreed) (hsame : ∀ b, b ≠ target → l.cooldown.find? b = l₀.cooldown.find? b)
    (h : Raises paces l₀ l) : Raises paces l₀ (as.foldl (m.absorb target) l) := by
  induction as generalizing l with
  | nil => exact h
  | cons b rest ih =>
    have hb := has b List.mem_cons_self
    have hstep : Raises paces l₀ (m.absorb target l b) := by
      rcases absorb_floors m target hl b with hrows | ⟨c, hc, hrows⟩
      · exact h.congr hrows
      · rw [hsame b hb] at hc
        exact h.record target c.notBefore c.reason (hpaces b List.mem_cons_self c hc) hrows
    have hagreed : (m.absorb target l b).Agreed := by
      rcases absorb_floors m target hl b with hrows | ⟨c, _, hrows⟩
      · exact hrows.agreed hl
      · exact hrows.agreed (hl.recordFloor _ _ _)
    refine ih (fun d hd => has d (List.mem_cons_of_mem _ hd))
      (fun d hd => hpaces d (List.mem_cons_of_mem _ hd)) hagreed (fun d hd => ?_) hstep
    rw [cooldown_absorb m hl b hd]
    exact hsame d hd

theorem raises_merge (m : Merge) (order : List Account → List Account)
    (permutes : ∀ as, (order as).Perm as) (holdsAccountLock : Bool) (hl : l.Agreed) :
    Raises (fun a u => (Write.merge m order permutes holdsAccountLock).paces l a u) l
      (l.write (.merge m order permutes holdsAccountLock)) := by
  simp only [Ledger.write, Merge.mergeIdentity]
  have hmem : ∀ b, b ∈ order (m.aliases l) ↔ b ∈ m.aliases l := fun b => (permutes _).mem_iff
  cases m.pinned l with
  | true => exact Raises.same (SameFloorRows.refl l)
  | false =>
    cases holdsAccountLock with
    | true => exact Raises.same (SameFloorRows.refl l)
    | false =>
      simp only [Bool.false_eq_true, if_false]
      rw [Merge.bindAll_eq]
      refine (raises_absorbAll m (m.target l) (order (m.aliases l)) l (fun b hb he => ?_)
        (fun b hb c hc hr => ?_) hl (fun b _ => rfl) (Raises.same (SameFloorRows.refl l))).congr
          (SameFloorRows.of_tables rfl rfl)
      · exact m.target_notMem_aliases l (he ▸ (hmem b).mp hb)
      · exact ⟨rfl, b, (hmem b).mp hb, c, hc, hr, rfl⟩

/-- Nothing is left to promote where the floors agree. -/
theorem promotePacing_agreed (hl : l.Agreed) : SameFloorRows l l.promotePacing := by
  intro a
  refine ⟨by rw [promotePacing_eq], ?_⟩
  rw [find?_promotePacing]
  have ha := hl a
  cases hp : l.pacing.find? a <;> cases hc : l.cooldown.find? a <;> rw [hp, hc] at ha
  · rfl
  · cases ha
  · cases ha
  · simp only [Option.map_some, Option.some.injEq] at ha
    simp only [lifted, Option.elim_some, ha, max_self, lt_irrefl, if_false]

theorem Raises.promote (h : Raises paces l l') : Raises paces l l'.promote := by
  have hfold : ∀ (v : Account → Instant) (as : List Account) (s : Ledger), Raises paces l s →
      Raises paces l (as.foldl (fun s a => s.recordFloor a (v a) .quotaBlock) s) := by
    intro v as
    induction as with
    | nil => exact fun s h => h
    | cons a rest ih =>
      exact fun s h => ih _ (h.record a (v a) .quotaBlock (fun he => by cases he)
        (SameFloorRows.refl _))
  exact hfold l'.blockedUntil _ l' h

theorem Raises.recover (h : Raises paces l l') (op : Operation) (now : Instant)
    (rows : List Intent) : Raises paces l (rows.foldl (recoveryFloor op now) l') := by
  induction rows generalizing l' with
  | nil => exact h
  | cons i rest ih =>
    exact ih (h.record _ _ .unknownRecovery (fun he => by cases he) (SameFloorRows.refl _))

/-- A reservation that is granted records its floor. -/
theorem raises_reserve (now : Instant) (r : Reservation) :
    Raises (fun a u => (Write.call (.reserve now r)).paces l a u) l (l.call (.reserve now r)).1 := by
  have h := reserve_charges_once r now l
  cases hres : reserveAcquisition r now l with
  | error e =>
    rw [hres] at h
    rw [h.2]
    exact Raises.same (SameFloorRows.refl l)
  | ok g =>
    obtain ⟨l', granted⟩ := g
    simp only [Ledger.call, hres]
    unfold reserveAcquisition at hres
    obtain ⟨_, _, hres⟩ := ok_bind hres
    obtain ⟨_, _, hres⟩ := ok_bind hres
    split at hres
    · cases ok_pure hres
      exact Raises.same (SameFloorRows.refl l)
    · obtain ⟨rfl, _, _⟩ := take_ok hres
      unfold Reservation.grant Reservation.allocated
      cases r.allocation <;>
        exact Raises.one r.account (now + r.interval) .pacing (fun _ => ⟨rfl, rfl⟩)
          (SameFloorRows.of_tables rfl rfl)

theorem raises_finish (now : Instant) (op : Operation) (startedAt : Option Instant)
    (possiblyStarted : Bool) (outcome : Outcome) :
    Raises (fun a u => (Write.call (.finish now op startedAt possiblyStarted outcome)).paces l a u) l
      (l.call (.finish now op startedAt possiblyStarted outcome)).1 := by
  simp only [Ledger.call]
  split
  · rename_i s hs
    rcases finalize_cases hs with rfl | ⟨_, ⟨_, _, rfl⟩ | ⟨_, _, rfl⟩ | ⟨t, rfl, _, rfl⟩⟩
    · exact Raises.same (SameFloorRows.refl _)
    · exact Raises.one _ _ .unknownDispatch (fun he => by cases he) (SameFloorRows.of_tables rfl rfl)
    · exact Raises.same (SameFloorRows.of_tables rfl rfl)
    · refine Raises.one op.account (now + op.interval) .pacing (fun _ => ⟨rfl, rfl⟩) ?_
      unfold Ledger.chargeStart
      split <;> exact SameFloorRows.of_tables rfl rfl
  · exact Raises.same (SameFloorRows.refl l)

theorem raises_prepare (now : Instant) (op : Operation) (publishes : Bool) :
    SameFloorRows l (l.call (.prepare now op publishes)).1 := by
  have hturn : ∀ s p, prepareTurn op now l = .ok (s, p) → SameFloorRows l s := by
    intro s p h
    rcases prepareTurn_cases h with ⟨rfl, _⟩ | ⟨_, _, _, rfl, _⟩
    · exact SameFloorRows.refl _
    · exact SameFloorRows.of_tables rfl rfl
  cases hp : prepare op now publishes l with
  | ok r =>
    obtain ⟨s, p⟩ := r
    cases p <;> simp only [Ledger.call, hp] <;> exact hturn _ _ (prepare_ok hp)
  | error r =>
    simp only [Ledger.call, hp]
    cases hk : r.kept with
    | none => exact SameFloorRows.refl l
    | some s =>
      rcases prepare_kept hp hk with rfl | rfl
      · exact SameFloorRows.refl _
      · exact SameFloorRows.of_tables rfl rfl

/-- **Step lemma.** Every writer records floors and nothing else. -/
theorem raises_write (hl : l.Agreed) (w : Write) : Raises (fun a u => w.paces l a u) l (l.write w) := by
  cases w with
  | call c =>
    cases c with
    | open_ => exact (Raises.same (promotePacing_agreed hl)).promote
    | enter now op =>
      simp only [Ledger.write, Ledger.call, recover_eq]
      split
      · rename_i s hs
        split at hs
        · cases hs
          have hlapsed : SameFloorRows l (l.lapseAll op.recovers now) :=
            SameFloorRows.of_tables rfl rfl
          exact (Raises.same hlapsed).recover op now _
        · cases hs
      · exact Raises.same (SameFloorRows.refl l)
    | prepare now op publishes => exact Raises.same (raises_prepare now op publishes)
    | usage op sample => exact Raises.same (SameFloorRows.of_tables rfl rfl)
    | rateLimited now op delay =>
      exact Raises.one _ _ .rateLimited (fun he => by cases he) (SameFloorRows.refl _)
    | finish now op startedAt possiblyStarted outcome =>
      exact raises_finish now op startedAt possiblyStarted outcome
    | reserve now r => exact raises_reserve now r
  | pace account now interval =>
    exact Raises.one _ _ .pacing (fun _ => ⟨rfl, rfl⟩) (SameFloorRows.refl _)
  | rateLimited account w until_ =>
    exact Raises.one _ _ .rateLimited (fun he => by cases he) (SameFloorRows.of_tables rfl rfl)
  | merge m order permutes holdsAccountLock => exact raises_merge m order permutes holdsAccountLock hl
  | claimPrune now batch =>
    simp only [Ledger.write, Ledger.claimPrune]
    split <;> exact Raises.same (SameFloorRows.of_tables rfl rfl)
  | pruneBatch p b =>
    simp only [Ledger.write, Ledger.pruneBatch]
    split
    · cases b <;> exact Raises.same (SameFloorRows.of_tables rfl rfl)
    · exact Raises.same (SameFloorRows.refl l)

/-! ## The ledgers of a store -/

/-- The first opening of a file makes its floors agree. -/
theorem agreed_opened (h : l.Legacy) : l.opened.Agreed := by
  have hpaced : l.promotePacing.Agreed := by
    intro a
    rw [find?_promotePacing, promotePacing_eq]
    cases hp : l.pacing.find? a with
    | none =>
      cases hc : l.cooldown.find? a with
      | none => rfl
      | some c =>
        obtain ⟨p, hp', _⟩ := h a c hc
        rw [hp] at hp'
        cases hp'
    | some p =>
      simp only [Option.map_some, Option.elim_some, Option.some.injEq]
      cases hc : l.cooldown.find? a with
      | none => rfl
      | some c =>
        obtain ⟨p', hp', hle⟩ := h a c hc
        rw [hp] at hp'
        cases hp'
        exact (max_eq_right hle).symm
  have hraises : Raises (fun _ _ => False) l.promotePacing l.opened :=
    (Raises.same (SameFloorRows.refl _)).promote
  exact hraises.agreed hpaced

theorem Ledger.Agreed.later (h : l.Agreed) (hlater : l.Later l') : l'.Agreed :=
  StepsIf.inv (I := Ledger.Agreed) (fun _ w hs _ => (raises_write hs w).agreed hs) hlater h

theorem Ledger.Stored.agreed (h : l.Stored) : l.Agreed := by
  obtain ⟨l₀, hlegacy, hlater⟩ := h
  exact (agreed_opened hlegacy).later hlater

/-- Floors only rise. -/
theorem nextAt_le_of_later (h : l.Agreed) (hlater : l.Later l') (a : Account) :
    l.nextAt a ≤ l'.nextAt a :=
  StepsIf.rel (I := Ledger.Agreed) (R := fun s t => s.nextAt a ≤ t.nextAt a) (fun _ => le_rfl)
    (fun _ _ _ => le_trans) (fun _ w hs _ => (raises_write hs w).agreed hs)
    (fun _ w hs _ => (raises_write hs w).nextAt_le a) hlater h

/-- `QuotaBlockedError` of a cooldown that a work item takes over. -/
def cooldownPending : QuotaBlocked := ⟨"durable provider account cooldown is pending", true⟩

/-- An account with a cooldown is closed: the cooldown is also its pacing. -/
theorem Ledger.Agreed.wait_pos (h : l.Agreed) {op : Operation} {now : Instant}
    (hkind : op.kind ≠ .cleanup) (hcooldown : now < l.cooldownUntil op.account) :
    0 < op.wait now l := by
  unfold Operation.wait
  rw [if_neg (by simpa using hkind)]
  refine Nat.sub_pos_of_lt (hcooldown.trans_le ?_)
  unfold Ledger.cooldownUntil
  refine max_le (le_max_right _ _) (le_trans ?_ (le_max_left _ _))
  rw [h.eq]
  unfold Ledger.notBefore
  cases l.cooldown.find? op.account with
  | none => exact le_rfl
  | some c =>
    simp only [Option.elim_some]
    split
    · exact le_rfl
    · exact Nat.zero_le _

/-- The checks of an open account refuse in other words. -/
theorem prepareTurn_error {op : Operation} {now : Instant} {e : QuotaBlocked}
    (h : prepareTurn op now l = .error e) : e ≠ cooldownPending := by
  unfold prepareTurn at h
  split at h
  · cases hc : prepareChecked op now l with
    | ok r =>
      rw [hc] at h
      cases h
    | error e' =>
      rw [hc] at h
      cases h
      unfold prepareChecked checkLogin at hc
      rcases error_bind hc with hc | ⟨_, _, hc⟩
      · rw [← (ensure_error.mp hc).2]
        decide
      · split at hc
        · rcases error_bind hc with hc | ⟨_, _, hc⟩
          · rcases error_bind hc with hc | ⟨_, _, hc⟩
            · rw [← (ensure_error.mp hc).2]
              decide
            · rcases error_bind hc with hc | ⟨_, _, hc⟩
              · rw [← (ensure_error.mp hc).2]
                decide
              · rw [← (ensure_error.mp hc).2]
                decide
          · cases hc
        · cases hc
  · cases h

/-- **The wait that is refunded arms nothing.** -/
theorem Ledger.Agreed.prepare_pending (h : l.Agreed) {op : Operation} {now : Instant}
    {publishes : Bool} {r : Raised QuotaBlocked Ledger} (hp : prepare op now publishes l = .error r)
    (hpending : r.err = cooldownPending) : r.kept = some l := by
  unfold prepare at hp
  cases hturn : prepareTurn op now l with
  | error e =>
    rw [hturn] at hp
    cases hp
    exact absurd hpending (prepareTurn_error hturn)
  | ok turn =>
    rw [hturn] at hp
    change (ensureOrKeep _ _ turn.1 >>= fun _ => _) = _ at hp
    unfold ensureOrKeep at hp
    split at hp
    · cases hp
    · rename_i hcond
      cases hp
      simp only [Bool.not_eq_true', Bool.not_eq_false, Bool.and_eq_true, bne_iff_ne, ne_eq,
        decide_eq_true_eq] at hcond
      have hwait := h.wait_pos hcond.1.1 hcond.1.2
      unfold prepareTurn at hturn
      rw [if_neg (Nat.ne_of_gt hwait)] at hturn
      cases hturn
      rfl

/-- **The floors of an account only rise, and agree.** In every ledger of a store that was
opened, pacing and cooldown are the same; later ledgers have them no lower; a reason
gives way to pacing only when the writer records a pacing floor at least as late; and a
turn of `prepare` that reports the cooldown has armed nothing. -/
theorem account_floors (h : l.Stored) :
    l.Agreed ∧
    (∀ l', l.Later l' → ∀ a, l.nextAt a ≤ l'.nextAt a ∧ l.notBefore a ≤ l'.notBefore a) ∧
    (∀ w a c c', l.cooldown.find? a = some c → (l.write w).cooldown.find? a = some c' →
      c.reason ≠ .pacing → c'.reason = .pacing → w.paces l a c'.notBefore ∧ c.notBefore ≤ c'.notBefore) ∧
    (∀ op now publishes r, prepare op now publishes l = .error r → r.err = cooldownPending →
      r.kept = some l) := by
  have hl := h.agreed
  refine ⟨hl, fun l' hlater a => ?_, fun w a c c' hc hc' hne hpacing => ?_,
    fun op now publishes r => hl.prepare_pending⟩
  · have hle := nextAt_le_of_later hl hlater a
    refine ⟨hle, ?_⟩
    rw [← hl.eq, ← (hl.later hlater).eq]
    exact hle
  · have hraises := raises_write hl w
    refine ⟨?_, ?_⟩
    · rcases hraises.pacing hc' hpacing with ⟨d, hd, hdpacing⟩ | hpaces
      · rw [hc] at hd
        cases hd
        exact absurd hdpacing hne
      · exact hpaces
    · have hle := hraises.nextAt_le a
      rw [hl.eq, (hraises.agreed hl).eq] at hle
      unfold Ledger.notBefore at hle
      rw [hc, hc'] at hle
      exact hle

/-- A new file, opened, and one account paced. -/
def pacedLedger : Ledger := Ledger.empty.opened.write (.pace ['a'] 0 second)

theorem stored_pacedLedger : pacedLedger.Stored := by
  refine ⟨Ledger.empty, fun a c hc => ?_, (StepsIf.refl Ledger.empty.opened).tail trivial⟩
  simp [Ledger.empty, Table.find?, Table.empty] at hc

theorem account_floors_pacedLedger :
    pacedLedger.Agreed ∧
    (∀ l', pacedLedger.Later l' → ∀ a,
      pacedLedger.nextAt a ≤ l'.nextAt a ∧ pacedLedger.notBefore a ≤ l'.notBefore a) ∧
    (∀ w a c c', pacedLedger.cooldown.find? a = some c →
      (pacedLedger.write w).cooldown.find? a = some c' → c.reason ≠ .pacing → c'.reason = .pacing →
      w.paces pacedLedger a c'.notBefore ∧ c.notBefore ≤ c'.notBefore) ∧
    (∀ op now publishes r, prepare op now publishes pacedLedger = .error r → r.err = cooldownPending →
      r.kept = some pacedLedger) :=
  account_floors stored_pacedLedger

end

end FinDB.Fetcher
