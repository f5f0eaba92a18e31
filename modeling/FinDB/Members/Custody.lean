import FinDB.Members.Audit
import FinDB.Members.Round

/-! # What the disk says of the calls

The calls of a member follow from its row: the provider is asked while there is no body, a request
goes out while it has no receipt, and a failure is reported before its plan asks a provider again.
What held of a disk is told from the later ones. -/
namespace FinDB.Members
open FinDB.Lib

/-! ## The calls that left -/

def Event.acquires (key : String) : Event → Bool
  | .acquire _ k => k == key
  | _ => false

def Event.acquiresFor (planId : String) : Event → Bool
  | .acquire p _ => p == planId
  | _ => false

def Event.delivers (identity : Bytes → String) (key id : String) : Event → Bool
  | .deliver k request => k == key && identity request == id
  | _ => false

def Event.reports (key : String) : Event → Bool
  | .outcome k _ => k == key
  | _ => false

/-- How often the provider was asked for a member. -/
def acquisitions (log : List Event) (key : String) : Nat := log.countP (Event.acquires key)

/-- How often a provider was asked for any member of a plan. -/
def planAcquisitions (log : List Event) (planId : String) : Nat :=
  log.countP (Event.acquiresFor planId)

/-- How often a request was delivered. -/
def deliveries (identity : Bytes → String) (log : List Event) (key id : String) : Nat :=
  log.countP (Event.delivers identity key id)

/-- How often an outcome of a member was sent. -/
def outcomes (log : List Event) (key : String) : Nat := log.countP (Event.reports key)

theorem countP_snoc (p : Event → Bool) (log : List Event) (e : Event) :
    (log ++ [e]).countP p = log.countP p + if p e then 1 else 0 := by
  rw [List.countP_append, List.countP_singleton]

/-! ## The invariant -/

variable (W : World)

/-- Digests match, a row is a member of its plan, and what went out is of the stored body. -/
structure Sound (d : Disk) : Prop where
  isSealed : ∀ w ∈ d.store.works, w.Sealed W.checksum
  planned : ∀ w ∈ d.store.works, ∃ e ∈ (W.plans w.planId).entries, w.key = workKey e
  delivered : ∀ k request, Event.deliver k request ∈ d.log →
    ∃ w b, d.store.works.find? k = some w ∧ w.body = some b ∧ request ∈ W.requests b

/-- An outcome of the member went out since then, if its failure was not reported then. -/
def Said (d₀ d : Disk) (key : String) : Prop :=
  ∀ w, d₀.store.works.find? key = some w → w.unreported = true →
    outcomes d₀.log key < outcomes d.log key

/-- The failure of a row is still to be reported, and its plan has not asked a provider since. -/
def Unsaid (d₀ d : Disk) (w : Work) : Prop :=
  (∃ v, d.store.works.find? w.key = some v ∧ v.planId = w.planId ∧ v.unreported = true) ∧
    planAcquisitions d.log w.planId = planAcquisitions d₀.log w.planId

/-- What is known of a later disk. -/
structure Since (d₀ d : Disk) : Prop where
  bodies : ∀ k w b, d₀.store.works.find? k = some w → w.body = some b →
    (∃ v, d.store.works.find? k = some v ∧ v.body = some b) ∧
      acquisitions d.log k = acquisitions d₀.log k
  receipts : ∀ r ∈ d₀.store.receipts, r ∈ d.store.receipts ∧
    deliveries W.identity d.log r.key r.idempotencyKey =
      deliveries W.identity d₀.log r.key r.idempotencyKey
  outcomes : ∀ k, outcomes d₀.log k ≤ outcomes d.log k
  reports : ∀ k w, d₀.store.works.find? k = some w → w.unreported = true →
    Said d₀ d k ∨ Unsaid d₀ d w

theorem Since.refl (d : Disk) : Since W d d where
  bodies k w b hw hb := ⟨⟨w, hw, hb⟩, rfl⟩
  receipts r hr := ⟨hr, rfl⟩
  outcomes _ := Nat.le_refl _
  reports k w hw hpending := by
    obtain ⟨_, rfl⟩ := Table.find?_eq_some.mp hw
    exact Or.inr ⟨⟨w, hw, rfl, hpending⟩, rfl⟩

/-- The failures of the plan that were not reported then have been since. -/
def SaidPlan (d₀ d : Disk) (planId : String) : Prop :=
  ∀ k w, d₀.store.works.find? k = some w → w.planId = planId → Said d₀ d k

/-- The invariant of the runs after `d₀`. -/
structure Kept (d₀ d : Disk) : Prop where
  sound : Sound W d
  since : Since W d₀ d

variable {W} {d₀ : Disk} {s t : Store} {log : List Event} {k p : String}

theorem sound_empty : Sound W ⟨.empty, []⟩ where
  isSealed w hw := absurd hw (Table.not_mem_empty w)
  planned w hw := absurd hw (Table.not_mem_empty w)
  delivered _ _ h := absurd h List.not_mem_nil

/-- What was said stays said. -/
theorem Said.mono {d d' : Disk} (h : Said d₀ d k) (ho : outcomes d.log k ≤ outcomes d'.log k) :
    Said d₀ d' k := fun w hw hpending => Nat.lt_of_lt_of_le (h w hw hpending) ho

theorem saidPlan_mono {d d' : Disk} (h : SaidPlan d₀ d p)
    (ho : ∀ k, outcomes d.log k ≤ outcomes d'.log k) : SaidPlan d₀ d' p :=
  fun k w hw hp => (h k w hw hp).mono (ho k)

/-- A row whose failure is to be reported is seen by the rounds of its plan. -/
theorem mem_pending {w : Work} (hw : w ∈ s.works) (h : w.unreported = true) :
    w.key ∈ s.pendingSourceErrorKeys w.planId :=
  List.mem_map.mpr ⟨w, List.mem_filter.mpr ⟨hw, by rw [h, beq_self_eq_true]; rfl⟩, rfl⟩

/-- A failure was reported, or the rounds of its plan see it. -/
theorem Kept.pending {d : Disk} (h : Kept W d₀ d) {w : Work}
    (hw : d₀.store.works.find? k = some w) (hpending : w.unreported = true) :
    Said d₀ d k ∨ k ∈ d.store.pendingSourceErrorKeys w.planId ∧
      ∃ e ∈ (W.plans w.planId).entries, k = workKey e := by
  refine (h.since.reports k w hw hpending).imp_right ?_
  rintro ⟨⟨v, hv, hplan, hreason⟩, -⟩
  obtain ⟨hmem, hkey⟩ := Table.find?_eq_some.mp hv
  rw [← (Table.find?_eq_some.mp hw).2, ← hkey, ← hplan]
  exact ⟨mem_pending hmem hreason, h.sound.planned v hmem⟩

/-- A member of a plan whose failures are reported. -/
theorem Kept.said {d : Disk} (h : Kept W d₀ d) (hp : SaidPlan d₀ d p) {entry : Part × String}
    (he : entry ∈ (W.plans p).entries) : Said d₀ d (workKey entry) := by
  intro w hw hpending
  rcases h.pending hw hpending with hsaid | ⟨-, e, hentry, hkey⟩
  · exact hsaid w hw hpending
  · exact hp _ w hw (W.own _ _ e entry hentry he hkey.symm) w hw hpending

/-- A member of a plan that its rounds do not see. -/
theorem Kept.said_of_entry {d : Disk} (h : Kept W d₀ d) {entry : Part × String}
    (he : entry ∈ (W.plans p).entries) (hnot : workKey entry ∉ d.store.pendingSourceErrorKeys p) :
    Said d₀ d (workKey entry) := by
  intro w hw hpending
  rcases h.pending hw hpending with hsaid | ⟨hin, e, hentry, hkey⟩
  · exact hsaid w hw hpending
  · have hown : w.planId = p := W.own _ _ e entry hentry he hkey.symm
    exact absurd (hown ▸ hin) hnot

/-! ## The writes of the store -/

/-- A method that changes the reasons of rows whose failures are reported. -/
theorem Kept.touches {T : String → Prop} (h : Kept W d₀ ⟨s, log⟩) (ht : Touches W.checksum T s t)
    (hT : ∀ k, T k → Said d₀ ⟨s, log⟩ k) : Kept W d₀ ⟨t, log⟩ := by
  refine ⟨⟨fun v hv => ?_, fun v hv => ?_, fun k request hcall => ?_⟩, ⟨fun k w b hw hb => ?_,
    fun r hr => ?_, h.since.outcomes, fun k w hw hpending => ?_⟩⟩
  · obtain ⟨w, hw, hgrows, -⟩ := ht.rows.back (Table.find?_self hv)
    exact hgrows.digest (h.sound.isSealed w (Table.find?_eq_some.mp hw).1)
  · obtain ⟨w, hw, hgrows, -⟩ := ht.rows.back (Table.find?_self hv)
    rw [hgrows.planId, hgrows.key]
    exact h.sound.planned w (Table.find?_eq_some.mp hw).1
  · obtain ⟨w, b, hw, hb, hrequest⟩ := h.sound.delivered k request hcall
    obtain ⟨v, hv, hgrows, -⟩ := ht.rows.forth hw
    exact ⟨v, b, hv, hgrows.body b hb, hrequest⟩
  · obtain ⟨⟨x, hx, hxb⟩, hcalls⟩ := h.since.bodies k w b hw hb
    obtain ⟨v, hv, hgrows, -⟩ := ht.rows.forth hx
    exact ⟨⟨v, hv, hgrows.body b hxb⟩, hcalls⟩
  · obtain ⟨hrow, hcalls⟩ := h.since.receipts r hr
    exact ⟨ht.receipts r hrow, hcalls⟩
  · rcases h.since.reports k w hw hpending with hsaid | ⟨⟨x, hx, hplan, hreason⟩, hcalls⟩
    · exact Or.inl hsaid
    · by_cases hk : T w.key
      · exact Or.inl ((Table.find?_eq_some.mp hw).2 ▸ hT w.key hk)
      · obtain ⟨v, hv, hgrows, hrest⟩ := ht.rows.forth hx
        have hxkey := (Table.find?_eq_some.mp hx).2
        refine Or.inr ⟨⟨v, hv, hgrows.planId.trans hplan, ?_⟩, hcalls⟩
        unfold Work.unreported at hreason ⊢
        rw [hrest (hxkey ▸ hk)]
        exact hreason

/-- A method that changes no reason. -/
theorem Kept.aside (h : Kept W d₀ ⟨s, log⟩) (ht : Touches W.checksum (fun _ => False) s t) :
    Kept W d₀ ⟨t, log⟩ := h.touches ht fun _ hk => hk.elim

/-- The members of a plan are added, and the rows that are there stay. -/
theorem Kept.recordPlan (h : Kept W d₀ ⟨s, log⟩) (planId provider : String) :
    Kept W d₀ ⟨s.recordPlan (W.plans planId) provider, log⟩ := by
  have hinsert : ∀ (t : Store) (e : Part × String), e ∈ (W.plans planId).entries →
      Kept W d₀ ⟨t, log⟩ → Kept W d₀ ⟨t.insertMember (W.plans planId) provider e, log⟩ := by
    intro t e he ht
    refine ⟨⟨fun w hw => ?_, fun w hw => ?_, fun k request hcall => ?_⟩,
      ⟨fun k w b hw hb => ?_, ht.since.receipts, ht.since.outcomes, fun k w hw hpending => ?_⟩⟩
    · rcases Table.mem_insertNew.mp hw with hw | ⟨rfl, _⟩
      · exact ht.sound.isSealed w hw
      · exact fun b hb => nomatch hb
    · rcases Table.mem_insertNew.mp hw with hw | ⟨rfl, _⟩
      · exact ht.sound.planned w hw
      · refine ⟨e, ?_, rfl⟩
        rw [W.planId]
        exact he
    · obtain ⟨w, b, hw, hrest⟩ := ht.sound.delivered k request hcall
      exact ⟨w, b, insertMember_kept _ _ _ hw, hrest⟩
    · obtain ⟨⟨v, hv, hvb⟩, hcalls⟩ := ht.since.bodies k w b hw hb
      exact ⟨⟨v, insertMember_kept _ _ _ hv, hvb⟩, hcalls⟩
    · rcases ht.since.reports k w hw hpending with hsaid | ⟨⟨v, hv, hrest⟩, hcalls⟩
      · exact Or.inl hsaid
      · exact Or.inr ⟨⟨v, insertMember_kept _ _ _ hv, hrest⟩, hcalls⟩
  unfold Store.recordPlan
  refine List.foldlRecOn (W.plans planId).entries _
    (motive := fun t : Store => Kept W d₀ ⟨t, log⟩) ?_ fun t ht e he => hinsert t e he ht
  exact h.aside (.of_works rfl rfl)

/-! ## The calls -/

theorem outcomes_snoc_le (log : List Event) (e : Event) (k : String) :
    outcomes log k ≤ outcomes (log ++ [e]) k := by
  unfold outcomes
  rw [countP_snoc]
  exact Nat.le_add_right _ _

/-- A call whose member has the body it goes out with, and that no row stands against. -/
theorem Kept.call {e : Event} (h : Kept W d₀ ⟨s, log⟩)
    (hdelivered : ∀ k request, e = .deliver k request →
      ∃ w b, s.works.find? k = some w ∧ w.body = some b ∧ request ∈ W.requests b)
    (hbodies : ∀ k w b, s.works.find? k = some w → w.body = some b → e.acquires k = false)
    (hreceipts : ∀ r ∈ s.receipts, e.delivers W.identity r.key r.idempotencyKey = false)
    (hreports : ∀ p, e.acquiresFor p = true → SaidPlan d₀ ⟨s, log⟩ p) :
    Kept W d₀ ⟨s, log ++ [e]⟩ := by
  have hmono := outcomes_snoc_le log e
  refine ⟨⟨h.sound.isSealed, h.sound.planned, fun k request hcall => ?_⟩,
    ⟨fun k w b hw hb => ?_, fun r hr => ?_, fun k => Nat.le_trans (h.since.outcomes k) (hmono k),
      fun k w hw hpending => ?_⟩⟩
  · rcases List.mem_append.mp hcall with hcall | hcall
    · exact h.sound.delivered k request hcall
    · exact hdelivered k request (List.mem_singleton.mp hcall).symm
  · obtain ⟨⟨v, hv, hvb⟩, hcalls⟩ := h.since.bodies k w b hw hb
    refine ⟨⟨v, hv, hvb⟩, ?_⟩
    unfold acquisitions at hcalls ⊢
    rw [countP_snoc, hbodies k v b hv hvb, hcalls]
    rfl
  · obtain ⟨hrow, hcalls⟩ := h.since.receipts r hr
    refine ⟨hrow, ?_⟩
    unfold deliveries at hcalls ⊢
    rw [countP_snoc, hreceipts r hrow, hcalls]
    rfl
  · rcases h.since.reports k w hw hpending with hsaid | ⟨hrow, hcalls⟩
    · exact Or.inl (hsaid.mono (hmono k))
    · cases hfor : e.acquiresFor w.planId with
      | true => exact Or.inl ((hreports _ hfor k w hw rfl).mono (hmono k))
      | false =>
        refine Or.inr ⟨hrow, ?_⟩
        unfold planAcquisitions at hcalls ⊢
        rw [countP_snoc, hfor, hcalls]
        rfl

/-- An outcome is sent; from then on it was said. -/
theorem Kept.outcome (h : Kept W d₀ ⟨s, log⟩) (k reason : String) :
    Kept W d₀ ⟨s, log ++ [.outcome k reason]⟩ ∧ Said d₀ ⟨s, log ++ [.outcome k reason]⟩ k := by
  refine ⟨h.call (fun _ _ he => nomatch he) (fun _ _ _ _ _ => rfl) (fun _ _ => rfl)
    (fun _ he => nomatch he), fun w hw hpending => ?_⟩
  unfold outcomes
  dsimp only
  rw [countP_snoc]
  have hone : Event.reports k (.outcome k reason) = true := beq_self_eq_true k
  rw [if_pos hone]
  exact Nat.lt_succ_of_le (h.since.outcomes k)

/-- The row has no body. -/
def Unbodied (k : String) (d : Disk) : Prop :=
  ∀ w, d.store.works.find? k = some w → w.body = none

def Bodied (k : String) (body : Bytes) (d : Disk) : Prop :=
  ∃ w, d.store.works.find? k = some w ∧ w.body = some body

theorem Kept.acquire (h : Kept W d₀ ⟨s, log⟩) (hk : Unbodied k ⟨s, log⟩)
    (hp : SaidPlan d₀ ⟨s, log⟩ p) : Kept W d₀ ⟨s, log ++ [.acquire p k]⟩ := by
  refine h.call (fun _ _ he => nomatch he) (fun j w b hw hb => ?_) (fun _ _ => rfl) fun q hq => ?_
  · refine beq_eq_false_iff_ne.mpr fun hjk => ?_
    subst hjk
    rw [hk w hw] at hb
    cases hb
  · rw [← beq_iff_eq.mp (show (p == q) = true from hq)]
    exact hp

theorem Kept.deliver {body request : Bytes} (h : Kept W d₀ ⟨s, log⟩)
    (hk : Bodied k body ⟨s, log⟩) (hr : request ∈ W.requests body)
    (hnew : s.sequenceReceipt k (W.identity request) = none) :
    Kept W d₀ ⟨s, log ++ [.deliver k request]⟩ := by
  refine h.call (fun j q he => ?_) (fun _ _ _ _ _ => rfl) (fun r hrow => ?_) fun _ he => nomatch he
  · cases he
    obtain ⟨w, hw, hb⟩ := hk
    exact ⟨w, body, hw, hb, hr⟩
  · refine Bool.and_eq_false_imp.mpr fun hkey => beq_eq_false_iff_ne.mpr fun hid => ?_
    unfold Store.sequenceReceipt at hnew
    rw [show (k, W.identity request) = r.identity from
      Prod.ext (beq_iff_eq.mp hkey) hid, Table.find?_self hrow] at hnew
    cases hnew

end FinDB.Members
