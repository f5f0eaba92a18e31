import FinDB.Fetcher.Observation

/-! # The budget of probes

The probes of one operation are a list: a call appends to it, and rewrites nothing but its last
entry. What a grant allows and how far apart the counted probes are is a property of that list;
that no other call writes to it is one of the owners. -/
namespace FinDB.Fetcher.Observation
open FinDB.Lib

/-! ## The probes of one operation -/

/-- Counted, under a grant. -/
def Probe.under (grantId : String) (p : Probe) : Bool := p.grantId == grantId && p.outcome.counted

/-- Grants are kept, and counted probes are apart. -/
structure Track (grants : List Grant) (probes : List Probe) (clock : Instant) : Prop where
  initial : ∀ g ∈ grants, g.grantId = "initial" → g.maximum = probeLimit
  granted : ∀ p ∈ probes, ∃ g ∈ grants, g.grantId = p.grantId
  bound : ∀ g ∈ grants, (probes.filter (·.under g.grantId)).length ≤ g.maximum
  spaced : probes.Pairwise fun p q => p.outcome.counted = true → q.outcome.counted = true →
    p.reservedAt + retrySeconds ≤ q.reservedAt
  past : ∀ p ∈ probes, 0 < p.reservedAt ∧ p.reservedAt ≤ clock

namespace Track

variable {grants : List Grant} {probes pre : List Probe} {clock : Instant} {g : Grant} {p p' : Probe}

theorem nil (clock : Instant) : Track [] [] clock :=
  ⟨nofun, nofun, nofun, .nil, nofun⟩

theorem later (h : Track grants probes clock) {now : Instant} (hnow : clock ≤ now) :
    Track grants probes now :=
  { h with past := fun p hp => ⟨(h.past p hp).1, Nat.le_trans (h.past p hp).2 hnow⟩ }

/-- No probe is under a grant that is not there yet. -/
theorem addGrant (h : Track grants probes clock) (hfresh : ∀ q ∈ grants, q.grantId ≠ g.grantId)
    (hinitial : g.grantId = "initial" → g.maximum = probeLimit) :
    Track (grants ++ [g]) probes clock := by
  refine ⟨fun q hq => ?_, fun p hp => ?_, fun q hq => ?_, h.spaced, h.past⟩
  · rcases List.mem_append.mp hq with hq | hq
    · exact h.initial q hq
    · cases List.mem_singleton.mp hq
      exact hinitial
  · obtain ⟨q, hq, hid⟩ := h.granted p hp
    exact ⟨q, List.mem_append_left _ hq, hid⟩
  · rcases List.mem_append.mp hq with hq | hq
    · exact h.bound q hq
    · cases List.mem_singleton.mp hq
      have hnone : probes.filter (·.under g.grantId) = [] := by
        refine List.filter_eq_nil_iff.mpr fun p hp hunder => ?_
        obtain ⟨q, hq, hid⟩ := h.granted p hp
        rw [Probe.under, Bool.and_eq_true, beq_iff_eq] at hunder
        exact hfresh q hq (hid.trans hunder.1)
      rw [hnone]
      exact Nat.zero_le _

/-- A probe that counts needs room in its grant and a distance to those before it. -/
theorem append (h : Track grants probes clock) (hg : g ∈ grants) (hid : g.grantId = p.grantId)
    (huniq : ∀ q ∈ grants, q.grantId = p.grantId → q = g)
    (hroom : (probes.filter (·.under g.grantId)).length < g.maximum)
    (hapart : ∀ q ∈ probes, q.outcome.counted = true →
      q.reservedAt + retrySeconds ≤ p.reservedAt)
    (hpast : 0 < p.reservedAt ∧ p.reservedAt ≤ clock) : Track grants (probes ++ [p]) clock := by
  refine ⟨h.initial, fun q hq => ?_, fun q hq => ?_, ?_, fun q hq => ?_⟩
  · rcases List.mem_append.mp hq with hq | hq
    · exact h.granted q hq
    · cases List.mem_singleton.mp hq
      exact ⟨g, hg, hid⟩
  · rw [List.filter_append, List.length_append]
    by_cases hq' : q.grantId = p.grantId
    · cases huniq q hq hq'
      have hone : ([p].filter (·.under g.grantId)).length ≤ 1 := List.length_filter_le ..
      omega
    · have hnone : [p].filter (·.under q.grantId) = [] := by
        refine List.filter_eq_nil_iff.mpr fun r hr hunder => ?_
        cases List.mem_singleton.mp hr
        rw [Probe.under, Bool.and_eq_true, beq_iff_eq] at hunder
        exact hq' hunder.1.symm
      rw [hnone]
      exact h.bound q hq
  · refine List.pairwise_append.mpr ⟨h.spaced, List.pairwise_singleton .., fun q hq r hr => ?_⟩
    cases List.mem_singleton.mp hr
    exact fun hcounted _ => hapart q hq hcounted
  · rcases List.mem_append.mp hq with hq | hq
    · exact h.past q hq
    · cases List.mem_singleton.mp hq
      exact hpast

/-- The last probe may stop counting, or be dated later. -/
theorem rewrite (h : Track grants (pre ++ [p]) clock) (hid : p'.grantId = p.grantId)
    (hcounted : p'.outcome.counted = true → p.outcome.counted = true)
    (hlater : p.reservedAt ≤ p'.reservedAt) (hpast : p'.reservedAt ≤ clock) :
    Track grants (pre ++ [p']) clock := by
  have hp : p ∈ pre ++ [p] := List.mem_append_right _ (List.mem_singleton.mpr rfl)
  obtain ⟨hpre, -, hcross⟩ := List.pairwise_append.mp h.spaced
  refine ⟨h.initial, fun q hq => ?_, fun g hg => ?_, ?_, fun q hq => ?_⟩
  · rcases List.mem_append.mp hq with hq | hq
    · exact h.granted q (List.mem_append_left _ hq)
    · cases List.mem_singleton.mp hq
      rw [hid]
      exact h.granted p hp
  · refine Nat.le_trans ?_ (h.bound g hg)
    rw [List.filter_append, List.filter_append, List.length_append, List.length_append]
    refine Nat.add_le_add_left ?_ _
    cases hunder : p'.under g.grantId with
    | false =>
      rw [List.filter_singleton, hunder]
      exact Nat.zero_le _
    | true =>
      rw [Probe.under, Bool.and_eq_true] at hunder
      have hunder' : p.under g.grantId = true := by
        rw [Probe.under, Bool.and_eq_true, ← hid]
        exact ⟨hunder.1, hcounted hunder.2⟩
      rw [List.filter_singleton, List.filter_singleton, hunder']
      exact List.length_filter_le (fun q => q.under g.grantId) [p']
  · refine List.pairwise_append.mpr ⟨hpre, List.pairwise_singleton .., fun q hq r hr => ?_⟩
    cases List.mem_singleton.mp hr
    intro hq' hp'
    exact Nat.le_trans (hcross q hq p (List.mem_singleton.mpr rfl) hq' (hcounted hp')) hlater
  · rcases List.mem_append.mp hq with hq | hq
    · exact h.past q (List.mem_append_left _ hq)
    · cases List.mem_singleton.mp hq
      exact ⟨Nat.lt_of_lt_of_le (h.past p hp).1 hlater, hpast⟩

/-- All counted probes fit into the grants together. -/
theorem length_counted_le (grants : List Grant) (probes : List Probe)
    (hgranted : ∀ p ∈ probes, ∃ g ∈ grants, g.grantId = p.grantId)
    (hbound : ∀ g ∈ grants, (probes.filter (·.under g.grantId)).length ≤ g.maximum) :
    (probes.filter (·.outcome.counted)).length ≤ (grants.map (·.maximum)).sum := by
  induction grants generalizing probes with
  | nil =>
    cases probes with
    | nil => exact Nat.le_refl _
    | cons p probes =>
      obtain ⟨g, hg, -⟩ := hgranted p List.mem_cons_self
      cases hg
  | cons g grants ih =>
    have hrest := ih (probes.filter fun p => !(p.grantId == g.grantId)) (fun p hp => by
      obtain ⟨hp, hne⟩ := List.mem_filter.mp hp
      obtain ⟨q, hq, hid⟩ := hgranted p hp
      rcases List.mem_cons.mp hq with rfl | hq
      · rw [hid, beq_self_eq_true] at hne
        cases hne
      · exact ⟨q, hq, hid⟩) fun q hq =>
        Nat.le_trans (List.filter_sublist.filter _).length_le
          (hbound q (List.mem_cons_of_mem _ hq))
    have hsplit := List.countP_eq_countP_filter_add probes (·.outcome.counted)
      (fun p => p.grantId == g.grantId)
    have hunder : (probes.filter fun p => p.grantId == g.grantId).countP (·.outcome.counted) =
        (probes.filter (·.under g.grantId)).length := by
      rw [List.countP_filter, List.countP_eq_length_filter]
      congr 2
      funext p
      exact Bool.and_comm ..
    have hg := hbound g List.mem_cons_self
    rw [List.map_cons, List.sum_cons]
    rw [List.countP_eq_length_filter, hunder, List.countP_eq_length_filter] at hsplit
    omega

/-- The initial limit is granted once. -/
theorem sum_maximum_le (grants : List Grant) (hnodup : (grants.map (·.grantId)).Nodup)
    (hinitial : ∀ g ∈ grants, g.grantId = "initial" → g.maximum = probeLimit) :
    (grants.map (·.maximum)).sum ≤
      probeLimit + ((grants.filter (·.grantId != "initial")).map (·.maximum)).sum := by
  induction grants with
  | nil => exact Nat.zero_le _
  | cons g grants ih =>
    obtain ⟨hfresh, hnodup⟩ := List.nodup_cons.mp hnodup
    have hrest := ih hnodup fun q hq => hinitial q (List.mem_cons_of_mem _ hq)
    rw [List.map_cons, List.sum_cons]
    by_cases hg : g.grantId = "initial"
    · have hothers : (g :: grants).filter (·.grantId != "initial") = grants := by
        rw [List.filter_cons_of_neg (by simp [hg]), List.filter_eq_self]
        intro q hq
        rw [bne_iff_ne, ← hg]
        exact fun he => hfresh (List.mem_map.mpr ⟨q, hq, he⟩)
      rw [hothers, hinitial g List.mem_cons_self hg]
    · rw [List.filter_cons_of_pos (by simp [hg]), List.map_cons, List.sum_cons]
      omega

theorem total (h : Track grants probes clock) (hnodup : (grants.map (·.grantId)).Nodup) :
    (probes.filter (·.outcome.counted)).length ≤
      probeLimit + ((grants.filter (·.grantId != "initial")).map (·.maximum)).sum :=
  Nat.le_trans (length_counted_le grants probes h.granted h.bound)
    (sum_maximum_le grants hnodup h.initial)

end Track

/-! ## The journal, one operation at a time -/

namespace Journal

variable {j : Journal} {op : Operation} {g : Grant} {p : Probe} {pre : List Probe}

theorem mem_grantsOf : g ∈ j.grantsOf op ↔ g ∈ j.grants ∧ g.operation = op := by
  unfold grantsOf
  rw [List.mem_filter, beq_iff_eq]
  exact Iff.rfl

theorem mem_probesOf : p ∈ j.probesOf op ↔ p ∈ j.probes ∧ p.operation = op := by
  unfold probesOf
  rw [List.mem_filter, beq_iff_eq]
  exact Iff.rfl

/-- A grant is known by its id among those of its operation. -/
theorem grantsOf_nodup (j : Journal) (op : Operation) :
    ((j.grantsOf op).map (·.grantId)).Nodup := by
  have hkeys : (((j.grantsOf op).map (·.grantId)).map fun id => (op, id)).Nodup := by
    have hmap : ((j.grantsOf op).map (·.grantId)).map (fun id => (op, id)) =
        (j.grantsOf op).map Grant.key := by
      rw [List.map_map]
      refine List.map_congr_left fun g hg => ?_
      rw [Grant.key, (mem_grantsOf.mp hg).2]
      rfl
    rw [hmap]
    exact j.grants.nodup.sublist (List.filter_sublist.map _)
  exact hkeys.of_map

theorem grantsOf_unique {q : Grant} (hg : g ∈ j.grantsOf op) (hq : q ∈ j.grantsOf op)
    (hid : q.grantId = g.grantId) : q = g := by
  obtain ⟨hg, hop⟩ := mem_grantsOf.mp hg
  obtain ⟨hq, hop'⟩ := mem_grantsOf.mp hq
  refine Table.eq_of_key hq hg ?_
  rw [Grant.key, Grant.key, hop, hop', hid]

/-- A grant is ignored where its id is taken. -/
theorem grantsOf_addGrant (j : Journal) (g : Grant) (op : Operation) :
    (j.addGrant g).grantsOf op = j.grantsOf op ∨
      g.operation = op ∧ (∀ q ∈ j.grantsOf op, q.grantId ≠ g.grantId) ∧
        (j.addGrant g).grantsOf op = j.grantsOf op ++ [g] := by
  unfold addGrant grantsOf Table.insertNew
  cases h : j.grants.insert? g with
  | none => exact Or.inl rfl
  | some grants =>
    rw [Option.getD_some, Table.insert?_rows h, List.filter_append]
    by_cases hop : g.operation = op
    · refine Or.inr ⟨hop, fun q hq hid => ?_, ?_⟩
      · obtain ⟨hq, hq'⟩ := List.mem_filter.mp hq
        refine Table.insert?_fresh h q hq ?_
        rw [Grant.key, Grant.key, beq_iff_eq.mp hq', hop, hid]
      · rw [List.filter_singleton, hop, beq_self_eq_true]
        rfl
    · refine Or.inl ?_
      rw [List.filter_singleton, beq_eq_false_iff_ne.mpr hop]
      exact List.append_nil _

theorem grantsOf_addGrant_ne (hop : g.operation ≠ op) :
    (j.addGrant g).grantsOf op = j.grantsOf op :=
  (grantsOf_addGrant j g op).resolve_right fun h => hop h.1

theorem mem_addGrant {q : Grant} (hq : q ∈ j.grantsOf op) : q ∈ (j.addGrant g).grantsOf op := by
  rcases grantsOf_addGrant j g op with h | ⟨-, -, h⟩
  · rw [h]
    exact hq
  · rw [h]
    exact List.mem_append_left _ hq

theorem exists_addGrant (j : Journal) (g : Grant) :
    ∃ q ∈ (j.addGrant g).grantsOf g.operation, q.grantId = g.grantId := by
  unfold addGrant grantsOf
  by_cases hnone : j.grants.find? g.key = none
  · refine ⟨g, List.mem_filter.mpr ⟨?_, beq_self_eq_true _⟩, rfl⟩
    exact Table.mem_insertNew.mpr (Or.inr ⟨rfl, hnone⟩)
  · obtain ⟨q, hq⟩ := Option.ne_none_iff_exists'.mp hnone
    obtain ⟨hmem, hkey⟩ := Table.find?_eq_some.mp hq
    obtain ⟨hop, hid⟩ := Prod.mk.inj hkey
    exact ⟨q, List.mem_filter.mpr ⟨Table.mem_insertNew.mpr (Or.inl hmem), beq_iff_eq.mpr hop⟩, hid⟩

theorem lt_nextProbeId (hp : p ∈ j.probes) : p.probeId < j.nextProbeId := by
  unfold nextProbeId
  cases hmax : (j.probes.rows.map (·.probeId)).max? with
  | none =>
    have hnil := List.map_eq_nil_iff.mp (List.max?_eq_none_iff.mp hmax)
    rw [Table.mem_def, hnil] at hp
    cases hp
  | some m =>
    exact Nat.lt_succ_of_le ((List.max?_eq_some_iff.mp hmax).2 _ (List.mem_map_of_mem hp))

theorem addProbe_rows (j : Journal) (op : Operation) (grantId : String) (now : Instant)
    (outcome : Outcome) : (j.addProbe op grantId now outcome).probes.rows =
      j.probes.rows ++ [⟨j.nextProbeId, op, grantId, now, outcome⟩] := by
  unfold addProbe Table.insertNew
  cases h : j.probes.insert? ⟨j.nextProbeId, op, grantId, now, outcome⟩ with
  | none =>
    obtain ⟨q, hq, hkey⟩ := Table.insert?_eq_none h
    exact absurd hkey (Nat.ne_of_lt (lt_nextProbeId hq))
  | some probes => exact Table.insert?_rows h

theorem probesOf_addProbe (j : Journal) (op : Operation) (grantId : String) (now : Instant)
    (outcome : Outcome) : (j.addProbe op grantId now outcome).probesOf op =
      j.probesOf op ++ [⟨j.nextProbeId, op, grantId, now, outcome⟩] := by
  unfold probesOf
  rw [addProbe_rows, List.filter_append, List.filter_singleton, beq_self_eq_true]
  rfl

theorem probesOf_addProbe_ne {op' : Operation} (hne : op ≠ op') (grantId : String) (now : Instant)
    (outcome : Outcome) : (j.addProbe op grantId now outcome).probesOf op' = j.probesOf op' := by
  unfold probesOf
  rw [addProbe_rows, List.filter_append, List.filter_singleton, beq_eq_false_iff_ne.mpr hne]
  exact List.append_nil _

/-- What `setProbe` makes of a row it selects. -/
def set (outcome : Outcome) (now : Option Instant) (p : Probe) : Probe :=
  { p with outcome, reservedAt := now.getD p.reservedAt }

theorem probesOf_setProbe (j : Journal) (id : Nat) (c : Outcome → Bool) (outcome : Outcome)
    (now : Option Instant) (op : Operation) : (j.setProbe id c outcome now).probesOf op =
      (j.probesOf op).map fun r =>
        if (decide (r.probeId = id) && c r.outcome) = true then set outcome now r else r :=
  Table.filter_update (f := set outcome now) (fun _ => rfl) fun _ => rfl

/-- Only the row of that id is rewritten. -/
theorem probesOf_setProbe_of_ne {id : Nat} {c : Outcome → Bool} {outcome : Outcome}
    {now : Option Instant} (hne : ∀ r ∈ j.probesOf op, r.probeId ≠ id) :
    (j.setProbe id c outcome now).probesOf op = j.probesOf op := by
  rw [probesOf_setProbe]
  refine (List.map_congr_left fun r hr => ?_).trans (List.map_id _)
  rw [decide_eq_false (hne r hr), Bool.false_and]
  rfl

theorem probesOf_setProbe_last (hlast : j.probesOf op = pre ++ [p]) (c : Outcome → Bool)
    (outcome : Outcome) (now : Option Instant) : (j.setProbe p.probeId c outcome now).probesOf op =
      pre ++ [if c p.outcome = true then set outcome now p else p] := by
  have hnodup : ((pre ++ [p]).map (·.probeId)).Nodup := by
    rw [← hlast]
    exact j.probes.nodup.sublist (List.filter_sublist.map _)
  rw [List.map_append, List.nodup_append] at hnodup
  rw [probesOf_setProbe, hlast, List.map_append]
  congr 1
  · refine (List.map_congr_left fun r hr => ?_).trans (List.map_id _)
    have hne : r.probeId ≠ p.probeId := hnodup.2.2 _ (List.mem_map_of_mem hr) _
      (List.mem_map_of_mem (List.mem_singleton.mpr rfl))
    rw [decide_eq_false hne, Bool.false_and]
    rfl
  · rw [List.map_singleton, decide_eq_true rfl, Bool.true_and]

/-- Two operations have no probe in common. -/
theorem ne_of_operation {q : Probe} {op' : Operation} (hp : p ∈ j.probesOf op)
    (hq : q ∈ j.probesOf op') (hne : op ≠ op') : q.probeId ≠ p.probeId := by
  obtain ⟨hp, hop⟩ := mem_probesOf.mp hp
  obtain ⟨hq, hop'⟩ := mem_probesOf.mp hq
  intro hid
  exact hne (hop.symm.trans (Table.eq_of_key hq hp hid ▸ hop'))

end Journal

/-! ## What a call may rely on -/

/-- A call may reserve under the grant it was given. -/
structure Ready (j : Journal) (clock : Instant) (op : Operation) (generation : String)
    (now : Instant) : Prop where
  room : ∃ g ∈ j.grantsOf op, g.grantId = generation ∧
    ((j.probesOf op).filter (·.under g.grantId)).length < g.maximum
  apart : ∀ p ∈ j.probesOf op, p.outcome.counted = true → p.reservedAt + retrySeconds ≤ now
  past : 0 < now ∧ now ≤ clock

/-- The probe of a call is the last of its operation. -/
structure Held (j : Journal) (uncertain : List Nat) (observations : Nat) (c : Call) (id : Nat) :
    Prop where
  last : ∃ pre p, j.probesOf c.operation = pre ++ [p] ∧ p.probeId = id
  counted : c.dispatched ≤ observations
  seen : id ∈ uncertain → c.dispatched < observations

/-- Nothing is known of the probe of a call yet. -/
def Unknown (j : Journal) (c : Call) (id : Nat) : Prop :=
  ∀ p ∈ j.probesOf c.operation, p.probeId = id → p.outcome = .unknown

def CallSound (j : Journal) (clock : Instant) (uncertain : List Nat) (observations : Nat)
    (c : Call) : Prop :=
  match c.phase with
  | .checked generation now => Ready j clock c.operation generation now
  | .bootstrap id | .fetching id =>
    Held j uncertain observations c id ∧ Unknown j c id ∧ id ∉ uncertain
  | .fetched id => Held j uncertain observations c id ∧ Unknown j c id
  | .observed id | .raising id _ => Held j uncertain observations c id

structure Sound (s : State) : Prop where
  tracks : ∀ op, Track (s.journal.grantsOf op) (s.journal.probesOf op) s.clock
  calls : ∀ w c, (s.owners w).call = some c → c.operation.workKey = w ∧
    CallSound s.journal s.clock s.uncertain (s.owners w).dispatchObservations c
  marked : ∀ id ∈ s.uncertain, ∃ p ∈ s.journal.probes, p.probeId = id
  uncertain : ∀ p ∈ s.journal.probes, p.probeId ∈ s.uncertain → p.outcome ≠ .predispatch

section
variable {j j' : Journal} {clock clock' : Instant} {uncertain uncertain' : List Nat}
variable {observations : Nat} {c : Call} {id : Nat} {s s' : State} {w : String}

/-- A call does not see what happens to other operations. -/
theorem CallSound.frame (h : CallSound j clock uncertain observations c)
    (hgrants : ∀ g ∈ j.grantsOf c.operation, g ∈ j'.grantsOf c.operation)
    (hprobes : j'.probesOf c.operation = j.probesOf c.operation) (hclock : clock ≤ clock')
    (hnew : ∀ id ∈ uncertain', id ∈ uncertain ∨ c.phase.probe? ≠ some id) :
    CallSound j' clock' uncertain' observations c := by
  have hmem : ∀ id, c.phase.probe? = some id → id ∈ uncertain' → id ∈ uncertain :=
    fun id hid hin => (hnew id hin).resolve_right fun hne => hne hid
  have hheld : ∀ id, c.phase.probe? = some id → Held j uncertain observations c id →
      Held j' uncertain' observations c id :=
    fun id hid hh => ⟨hprobes ▸ hh.last, hh.counted, fun hin => hh.seen (hmem id hid hin)⟩
  have hunknown : ∀ id, Unknown j c id → Unknown j' c id := fun id hu => by
    unfold Unknown
    rw [hprobes]
    exact hu
  unfold CallSound at h ⊢
  cases hphase : c.phase with
  | checked generation now =>
    rw [hphase] at h
    obtain ⟨⟨g, hg, hid, hroom⟩, hapart, hpast⟩ := h
    refine ⟨⟨g, hgrants g hg, hid, ?_⟩, ?_, hpast.1, Nat.le_trans hpast.2 hclock⟩
    · rw [hprobes]
      exact hroom
    · rw [hprobes]
      exact hapart
  | bootstrap id | fetching id =>
    rw [hphase] at h
    have hid : c.phase.probe? = some id := by rw [hphase]; rfl
    exact ⟨hheld id hid h.1, hunknown id h.2.1, fun hin => h.2.2 (hmem id hid hin)⟩
  | fetched id =>
    rw [hphase] at h
    have hid : c.phase.probe? = some id := by rw [hphase]; rfl
    exact ⟨hheld id hid h.1, hunknown id h.2⟩
  | observed id | raising id _ =>
    rw [hphase] at h
    have hid : c.phase.probe? = some id := by rw [hphase]; rfl
    exact hheld id hid h

/-- The probe a call holds is of its own operation. -/
theorem CallSound.probe (h : CallSound j clock uncertain observations c)
    (hid : c.phase.probe? = some id) : Held j uncertain observations c id := by
  unfold CallSound at h
  cases hphase : c.phase with
  | checked => rw [hphase] at hid; cases hid
  | bootstrap | fetching => rw [hphase] at h hid; cases hid; exact h.1
  | fetched => rw [hphase] at h hid; cases hid; exact h.1
  | observed | raising => rw [hphase] at h hid; cases hid; exact h

theorem Held.mem (h : Held j uncertain observations c id) :
    ∃ p ∈ j.probesOf c.operation, p.probeId = id := by
  obtain ⟨pre, p, hlast, hid⟩ := h.last
  exact ⟨p, hlast ▸ List.mem_append_right _ (List.mem_singleton.mpr rfl), hid⟩

/-- The step rule: a step of one work is sound when the operations of that work are. -/
theorem Sound.step (h : Sound s) (w : String) (hclock : s'.clock = s.clock)
    (howners : ∀ v, v ≠ w → s'.owners v = s.owners v)
    (hgrants : ∀ op, op.workKey ≠ w → s'.journal.grantsOf op = s.journal.grantsOf op)
    (hprobes : ∀ op, op.workKey ≠ w → s'.journal.probesOf op = s.journal.probesOf op)
    (htracks : ∀ op, op.workKey = w →
      Track (s'.journal.grantsOf op) (s'.journal.probesOf op) s.clock)
    (hcall : ∀ c, (s'.owners w).call = some c → c.operation.workKey = w ∧
      CallSound s'.journal s.clock s'.uncertain (s'.owners w).dispatchObservations c)
    (hkept : ∀ p ∈ s.journal.probes, ∃ p' ∈ s'.journal.probes, p'.probeId = p.probeId)
    (hnew : ∀ id ∈ s'.uncertain, id ∈ s.uncertain ∨
      ∃ p ∈ s'.journal.probes, p.probeId = id ∧ p.operation.workKey = w)
    (huncertain : ∀ op, op.workKey = w → ∀ p ∈ s'.journal.probesOf op,
      p.probeId ∈ s'.uncertain → p.outcome ≠ .predispatch) : Sound s' := by
  refine ⟨fun op => ?_, fun v c hc => ?_, fun id hid => ?_, fun p hp hid => ?_⟩
  · rw [hclock]
    by_cases hop : op.workKey = w
    · exact htracks op hop
    · rw [hgrants op hop, hprobes op hop]
      exact h.tracks op
  · rw [hclock]
    by_cases hv : v = w
    · cases hv
      exact hcall c hc
    · rw [howners v hv] at hc ⊢
      obtain ⟨hwork, hsound⟩ := h.calls v c hc
      have hop : c.operation.workKey ≠ w := hwork ▸ hv
      refine ⟨hwork, hsound.frame (fun g hg => ?_) (hprobes _ hop) (Nat.le_refl _) fun id hid => ?_⟩
      · rw [hgrants _ hop]
        exact hg
      · refine (hnew id hid).imp_right fun ⟨p, hp, hpid, hpw⟩ hphase => ?_
        obtain ⟨q, hq, hqid⟩ := (hsound.probe hphase).mem
        rw [← hprobes _ hop] at hq
        obtain ⟨hq, hqop⟩ := Journal.mem_probesOf.mp hq
        cases Table.eq_of_key hp hq (hpid.trans hqid.symm)
        exact hop (hqop ▸ hpw)
  · rcases hnew id hid with hid | ⟨p, hp, hpid, -⟩
    · obtain ⟨p, hp, hpid⟩ := h.marked id hid
      obtain ⟨p', hp', hpid'⟩ := hkept p hp
      exact ⟨p', hp', hpid'.trans hpid⟩
    · exact ⟨p, hp, hpid⟩
  · by_cases hop : p.operation.workKey = w
    · exact huncertain _ hop p (Journal.mem_probesOf.mpr ⟨hp, rfl⟩) hid
    · have hp' := Journal.mem_probesOf.mpr ⟨hp, rfl⟩
      rw [hprobes _ hop] at hp'
      rcases hnew _ hid with hid | ⟨q, hq, hqid, hqw⟩
      · exact h.uncertain p (Journal.mem_probesOf.mp hp').1 hid
      · cases Table.eq_of_key hq hp hqid
        exact absurd hqw hop

/-- The same for a step that writes to one operation only. -/
theorem Sound.own (h : Sound s) {o : Operation} (hwork : o.workKey = w)
    (hclock : s'.clock = s.clock) (howners : ∀ v, v ≠ w → s'.owners v = s.owners v)
    (hgrants : s'.journal.grants = s.journal.grants)
    (hprobes : ∀ op, op ≠ o → s'.journal.probesOf op = s.journal.probesOf op)
    (htrack : Track (s.journal.grantsOf o) (s'.journal.probesOf o) s.clock)
    (hcall : ∀ c, (s'.owners w).call = some c → c.operation.workKey = w ∧
      CallSound s'.journal s.clock s'.uncertain (s'.owners w).dispatchObservations c)
    (hkept : ∀ p ∈ s.journal.probesOf o,
      ∃ p' ∈ s'.journal.probesOf o, p'.probeId = p.probeId)
    (hnew : ∀ id ∈ s'.uncertain, id ∈ s.uncertain ∨
      ∃ p ∈ s'.journal.probesOf o, p.probeId = id)
    (huncertain : ∀ p ∈ s'.journal.probesOf o,
      p.probeId ∈ s'.uncertain → p.outcome ≠ .predispatch) : Sound s' := by
  have hgrantsOf : ∀ op, s'.journal.grantsOf op = s.journal.grantsOf op := fun op => by
    unfold Journal.grantsOf
    rw [hgrants]
  have hother : ∀ op, op.workKey ≠ w → op ≠ o := fun op hop he => hop (he ▸ hwork)
  refine h.step w hclock howners (fun op _ => hgrantsOf op)
    (fun op hop => hprobes op (hother op hop)) (fun op _ => ?_) hcall (fun p hp => ?_)
    (fun id hid => ?_) fun op _ p hp hid => ?_
  · rw [hgrantsOf]
    by_cases hop : op = o
    · cases hop
      exact htrack
    · rw [hprobes op hop]
      exact h.tracks op
  · by_cases hop : p.operation = o
    · obtain ⟨p', hp', hid⟩ := hkept p (Journal.mem_probesOf.mpr ⟨hp, hop⟩)
      exact ⟨p', (Journal.mem_probesOf.mp hp').1, hid⟩
    · have hp' := Journal.mem_probesOf.mpr ⟨hp, rfl⟩
      rw [← hprobes _ hop] at hp'
      exact ⟨p, (Journal.mem_probesOf.mp hp').1, rfl⟩
  · refine (hnew id hid).imp_right fun ⟨p, hp, hpid⟩ => ?_
    obtain ⟨hp, hop⟩ := Journal.mem_probesOf.mp hp
    exact ⟨p, hp, hpid, hop ▸ hwork⟩
  · by_cases hop : op = o
    · cases hop
      exact huncertain p hp hid
    · rcases hnew _ hid with hid | ⟨q, hq, hqid⟩
      · rw [hprobes op hop] at hp
        exact h.uncertain p (Journal.mem_probesOf.mp hp).1 hid
      · exact absurd hqid (Journal.ne_of_operation hp hq hop)

/-- A step that leaves the journal and the marks alone. -/
theorem Sound.same (h : Sound s) (hclock : s'.clock = s.clock)
    (howners : ∀ v, v ≠ w → s'.owners v = s.owners v) (hjournal : s'.journal = s.journal)
    (hmarks : s'.uncertain = s.uncertain)
    (hcall : ∀ c, (s'.owners w).call = some c → c.operation.workKey = w ∧
      CallSound s.journal s.clock s.uncertain (s'.owners w).dispatchObservations c) : Sound s' := by
  refine h.step w hclock howners (fun op _ => by rw [hjournal]) (fun op _ => by rw [hjournal])
    (fun op _ => ?_) (fun c hc => ?_) (fun p hp => ⟨p, hjournal ▸ hp, rfl⟩) (fun id hid => ?_)
    fun op _ p hp hid => ?_
  · rw [hjournal]
    exact h.tracks op
  · rw [hjournal, hmarks]
    exact hcall c hc
  · exact Or.inl (hmarks ▸ hid)
  · rw [hjournal] at hp
    exact h.uncertain p (Journal.mem_probesOf.mp hp).1 (hmarks ▸ hid)

@[simp] theorem State.setOwner_self (s : State) (w : String) (o : Owner) :
    (s.setOwner w o).owners w = o := Function.update_self ..

theorem State.setOwner_ne (s : State) {w v : String} (o : Owner) (hv : v ≠ w) :
    (s.setOwner w o).owners v = s.owners v := Function.update_of_ne hv ..

/-! ## The steps of a call -/

/-- The call ends, or goes on where the same is known. -/
theorem Sound.setCall (h : Sound s) {call : Option Call}
    (hcall : ∀ c, call = some c → c.operation.workKey = w ∧
      CallSound s.journal s.clock s.uncertain (s.owners w).dispatchObservations c) :
    Sound (s.setCall w call) := by
  refine h.same (w := w) rfl (fun v hv => s.setOwner_ne _ hv) rfl rfl fun c hc => ?_
  rw [State.setCall, State.setOwner_self] at hc ⊢
  exact hcall c hc

theorem Sound.reserve (h : Sound s) (hc : (s.owners w).call = some c) {generation : String}
    {now : Instant} (hphase : c.phase = .checked generation now) :
    Sound ({ s with journal := s.journal.addProbe c.operation generation now .unknown }.setCall w
      (some ⟨c.operation, .bootstrap s.journal.nextProbeId,
        (s.owners w).dispatchObservations⟩)) := by
  obtain ⟨hwork, hsound⟩ := h.calls w c hc
  rw [CallSound, hphase] at hsound
  obtain ⟨⟨g, hg, hid, hroom⟩, hapart, hpast⟩ := hsound
  have hfresh : s.journal.nextProbeId ∉ s.uncertain := fun hin => by
    obtain ⟨p, hp, hpid⟩ := h.marked _ hin
    exact Nat.ne_of_lt (Journal.lt_nextProbeId hp) hpid
  have hnew := Journal.probesOf_addProbe s.journal c.operation generation now .unknown
  refine h.own hwork rfl (fun v hv => State.setOwner_ne _ _ hv) rfl
    (fun op hop => Journal.probesOf_addProbe_ne (Ne.symm hop) ..) ?_ (fun c' hc' => ?_)
    (fun p hp => ⟨p, ?_, rfl⟩) (fun id hin => Or.inl hin) fun p hp hin => ?_
  · refine hnew ▸ (h.tracks c.operation).append hg hid (fun q hq hq' => ?_) hroom hapart hpast
    exact Journal.grantsOf_unique hg hq (hq'.trans hid.symm)
  · rw [State.setCall, State.setOwner_self] at hc' ⊢
    cases hc'
    refine ⟨hwork, ⟨⟨_, _, hnew, rfl⟩, Nat.le_refl _, fun hin => absurd hin hfresh⟩, ?_, hfresh⟩
    intro p hp hpid
    obtain ⟨hp, hop⟩ := Journal.mem_probesOf.mp hp
    have hq := Journal.mem_probesOf.mp (hnew ▸ List.mem_append_right _ (List.mem_singleton.mpr rfl))
    rw [Table.eq_of_key hp hq.1 hpid]
  · change p ∈ (s.journal.addProbe c.operation generation now .unknown).probesOf c.operation
    rw [hnew]
    exact List.mem_append_left _ hp
  · change p ∈ (s.journal.addProbe c.operation generation now .unknown).probesOf c.operation at hp
    rw [hnew] at hp
    rcases List.mem_append.mp hp with hp | hp
    · exact h.uncertain p (Journal.mem_probesOf.mp hp).1 hin
    · cases List.mem_singleton.mp hp
      exact absurd hin hfresh

/-- A call rewrites its probe. -/
theorem Sound.rewrite (h : Sound s) (hwork : c.operation.workKey = w)
    (hheld : Held s.journal s.uncertain (s.owners w).dispatchObservations c id)
    (k : Outcome → Bool) (outcome : Outcome) (now : Option Instant)
    (hclock : s'.clock = s.clock) (howners : ∀ v, v ≠ w → s'.owners v = s.owners v)
    (hjournal : s'.journal = s.journal.setProbe id k outcome now)
    (hmarks : s'.uncertain = s.uncertain) (hnow : ∀ t ∈ now, t = s.clock)
    (hcounted : ∀ p ∈ s.journal.probesOf c.operation, p.probeId = id → k p.outcome = true →
      (outcome.counted = true → p.outcome.counted = true) ∧
        (outcome = .predispatch → id ∉ s.uncertain))
    (hcall : ∀ c', (s'.owners w).call = some c' → c'.operation = c.operation ∧
      (Held s'.journal s.uncertain (s.owners w).dispatchObservations c id →
        CallSound s'.journal s.clock s.uncertain (s'.owners w).dispatchObservations c')) :
    Sound s' := by
  obtain ⟨pre, p, hlast, rfl⟩ := hheld.last
  have hp : p ∈ s.journal.probesOf c.operation :=
    hlast ▸ List.mem_append_right _ (List.mem_singleton.mpr rfl)
  have hset := Journal.probesOf_setProbe_last hlast k outcome now
  rw [← hjournal] at hset
  have htrack := h.tracks c.operation
  rw [hlast] at htrack
  have hpast := htrack.past p (List.mem_append_right _ (List.mem_singleton.mpr rfl))
  have hheld' : Held s'.journal s.uncertain (s.owners w).dispatchObservations c p.probeId := by
    refine ⟨⟨_, _, hset, ?_⟩, hheld.counted, hheld.seen⟩
    split <;> rfl
  have hids : ∀ q ∈ s'.journal.probesOf c.operation, q.probeId ∈ s.uncertain →
      q.outcome ≠ .predispatch := by
    intro q hq hin
    rw [hset] at hq
    rcases List.mem_append.mp hq with hq | hq
    · have hq' : q ∈ s.journal.probesOf c.operation := hlast ▸ List.mem_append_left _ hq
      exact h.uncertain q (Journal.mem_probesOf.mp hq').1 hin
    · rw [List.mem_singleton.mp hq] at hin ⊢
      split at hin
      · rename_i hk
        rw [if_pos hk]
        exact fun he => (hcounted p hp rfl hk).2 he hin
      · rename_i hk
        rw [if_neg hk]
        exact h.uncertain p (Journal.mem_probesOf.mp hp).1 hin
  refine h.own hwork hclock howners (by rw [hjournal]; rfl) (fun op hop => ?_) ?_ (fun c' hc' => ?_)
    (fun q hq => ?_) (fun id hin => Or.inl (hmarks ▸ hin)) fun q hq hin => hids q hq (hmarks ▸ hin)
  · rw [hjournal]
    exact Journal.probesOf_setProbe_of_ne fun q hq => Journal.ne_of_operation hp hq (Ne.symm hop)
  · rw [hset]
    split
    · rename_i hk
      refine htrack.rewrite rfl (hcounted p hp rfl hk).1 ?_ ?_
      · cases now with
        | none => exact Nat.le_refl _
        | some t => exact hnow t rfl ▸ hpast.2
      · cases now with
        | none => exact hpast.2
        | some t => exact Nat.le_of_eq (hnow t rfl)
    · exact htrack
  · obtain ⟨hop, hsound⟩ := hcall c' hc'
    rw [hmarks]
    exact ⟨hop ▸ hwork, hsound hheld'⟩
  · rw [hset]
    rw [hlast] at hq
    rcases List.mem_append.mp hq with hq | hq
    · exact ⟨q, List.mem_append_left _ hq, rfl⟩
    · cases List.mem_singleton.mp hq
      refine ⟨_, List.mem_append_right _ (List.mem_singleton.mpr rfl), ?_⟩
      split <;> rfl

theorem Held.later (h : Held j uncertain observations c id) {observations' : Nat} {c' : Call}
    (hle : observations ≤ observations') (hop : c'.operation = c.operation)
    (hd : c'.dispatched = c.dispatched) : Held j uncertain observations' c' id := by
  refine ⟨hop ▸ h.last, ?_, fun hin => ?_⟩
  · rw [hd]
    exact Nat.le_trans h.counted hle
  · rw [hd]
    exact Nat.lt_of_lt_of_le (h.seen hin) hle

/-- A command of the bootstrap failed: the bars were not asked for. -/
theorem Sound.bootstrapFailed (h : Sound s) (hc : (s.owners w).call = some c)
    (hphase : c.phase = .bootstrap id) (run : NativeRun) (failure : Failure) :
    Sound ({ s.exit w run with
      journal := recordKbarsNotDispatched id s.journal }.setCall w
        (some { c with phase := .raising id failure })) := by
  obtain ⟨hwork, hsound⟩ := h.calls w c hc
  rw [CallSound, hphase] at hsound
  obtain ⟨hheld, -, hunsent⟩ := hsound
  refine h.rewrite hwork hheld (· == .unknown) .predispatch none rfl (fun v hv => ?_) rfl rfl nofun
    (fun _ _ _ _ => ⟨nofun, fun _ => hunsent⟩) fun c' hc' => ?_
  · rw [State.setCall, State.setOwner_ne _ _ hv]
    exact State.setOwner_ne _ _ hv
  · rw [State.setCall, State.setOwner_self] at hc' ⊢
    cases hc'
    refine ⟨rfl, fun hheld => hheld.later ?_ rfl rfl⟩
    rw [State.exit, State.setOwner_self]
    exact Nat.le_add_right ..

/-- The command for the bars ended. -/
theorem Sound.kbars (h : Sound s) (hc : (s.owners w).call = some c)
    (hphase : c.phase = .fetching id) (run : NativeRun) : Sound (((s.exit w run).mark id
      run.dispatched).setCall w (some { c with phase := match run.failure with
        | none => .fetched id
        | some failure => .raising id failure })) := by
  obtain ⟨hwork, hsound⟩ := h.calls w c hc
  rw [CallSound, hphase] at hsound
  obtain ⟨hheld, hunknown, hunsent⟩ := hsound
  have hmarks : ∀ i ∈ if run.dispatched = true then id :: s.uncertain else s.uncertain,
      i ∈ s.uncertain ∨ i = id ∧ run.dispatched = true := by
    intro i hi
    split at hi
    · rename_i hdispatched
      exact (List.mem_cons.mp hi).elim (fun he => Or.inr ⟨he, hdispatched⟩) Or.inl
    · exact Or.inl hi
  refine h.own hwork rfl (fun v hv => ?_) rfl (fun _ _ => rfl) (h.tracks _) (fun c' hc' => ?_)
    (fun p hp => ⟨p, hp, rfl⟩) (fun i hi => (hmarks i hi).imp_right fun he => ?_) fun p hp hi => ?_
  · rw [State.setCall, State.setOwner_ne _ _ hv]
    exact State.setOwner_ne _ _ hv
  · rw [State.setCall, State.setOwner_self] at hc' ⊢
    cases hc'
    have hheld' : Held s.journal (if run.dispatched = true then id :: s.uncertain else s.uncertain)
        ((s.owners w).dispatchObservations + run.dispatched.toNat) c id := by
      refine ⟨hheld.last, Nat.le_trans hheld.counted (Nat.le_add_right ..), fun hi => ?_⟩
      rcases hmarks id hi with hi | ⟨-, hdispatched⟩
      · exact absurd hi hunsent
      · rw [hdispatched]
        exact Nat.lt_succ_of_le hheld.counted
    refine ⟨hwork, ?_⟩
    have hself : (((s.exit w run).mark id run.dispatched).owners w).dispatchObservations =
        (s.owners w).dispatchObservations + run.dispatched.toNat := by
      rw [State.mark, State.exit, State.setOwner_self]
    rw [hself]
    cases hfailure : run.failure with
    | none => exact ⟨hheld'.later (Nat.le_refl _) rfl rfl, hunknown⟩
    | some failure => exact hheld'.later (Nat.le_refl _) rfl rfl
  · obtain ⟨p, hp, hpid⟩ := hheld.mem
    exact ⟨p, hp, hpid.trans he.1.symm⟩
  · rcases hmarks _ hi with hi | ⟨hpid, -⟩
    · exact h.uncertain p (Journal.mem_probesOf.mp hp).1 hi
    · rw [hunknown p hp hpid]
      nofun

theorem Sound.observe (h : Sound s) (hc : (s.owners w).call = some c)
    (hphase : c.phase = .fetched id) (snapshot : Snapshot) :
    Sound ({ s with journal := observeSnapshot snapshot id s.clock s.journal }.setCall w
      (some { c with phase := .observed id })) := by
  obtain ⟨hwork, hsound⟩ := h.calls w c hc
  rw [CallSound, hphase] at hsound
  obtain ⟨hheld, hunknown⟩ := hsound
  refine h.rewrite hwork hheld (fun _ => true) snapshot.outcome (some s.clock) rfl
    (fun v hv => State.setOwner_ne _ _ hv) rfl rfl
    (fun t ht => Option.some.inj ht.symm) (fun p hp hpid _ => ⟨fun _ => ?_, fun he => ?_⟩)
    fun c' hc' => ?_
  · rw [hunknown p hp hpid]
    rfl
  · unfold Snapshot.outcome at he
    split at he
    · cases he
    · split at he <;> cases he
  · rw [State.setCall, State.setOwner_self] at hc' ⊢
    cases hc'
    exact ⟨rfl, fun hheld => hheld.later (Nat.le_refl _) rfl rfl⟩

/-- The except clause frees a probe only where no dispatch was observed. -/
theorem Sound.except (h : Sound s) (hc : (s.owners w).call = some c) {failure : Failure}
    (hphase : c.phase = .raising id failure) : Sound ({ s with
      journal := settle failure id (decide ((s.owners w).dispatchObservations = c.dispatched))
        s.clock s.journal }.setCall w none) := by
  obtain ⟨hwork, hsound⟩ := h.calls w c hc
  rw [CallSound, hphase] at hsound
  have hnone : ∀ j c', ((({ s with journal := j } : State).setCall w none).owners w).call =
      some c' → c'.operation = c.operation ∧ (Held j s.uncertain
        (s.owners w).dispatchObservations c id → CallSound j s.clock s.uncertain
          ((({ s with journal := j } : State).setCall w none).owners w).dispatchObservations c') := by
    intro j c' hc'
    rw [State.setCall, State.setOwner_self] at hc'
    cases hc'
  unfold settle
  split
  · exact h.rewrite hwork hsound (· == .unknown) .invalid (some s.clock) rfl
      (fun v hv => State.setOwner_ne _ _ hv) rfl rfl (fun t ht => Option.some.inj ht.symm)
      (fun _ _ _ _ => ⟨nofun, nofun⟩) (hnone _)
  · split
    · rename_i hproven
      have hundispatched := of_decide_eq_true (Bool.and_eq_true_iff.mp hproven).2
      refine h.rewrite hwork hsound (· == .unknown) .predispatch none rfl
        (fun v hv => State.setOwner_ne _ _ hv) rfl rfl nofun (fun _ _ _ _ => ⟨nofun, fun _ hin => ?_⟩) (hnone _)
      exact Nat.ne_of_gt (hsound.seen hin) hundispatched
    · refine h.rewrite hwork hsound (· == .unknown) .unknown (some s.clock) rfl
        (fun v hv => State.setOwner_ne _ _ hv) rfl rfl (fun t ht => Option.some.inj ht.symm) (fun p _ _ hk => ⟨fun _ => ?_, nofun⟩) (hnone _)
      rw [beq_iff_eq.mp hk]
      rfl

/-- A process ends; what it did not prove is marked. -/
theorem Sound.crash (h : Sound s) (w : String) : Sound (s.crash w) := by
  have hgone : Sound (s.setOwner w ⟨0, none⟩) :=
    h.same (w := w) rfl (fun v hv => s.setOwner_ne _ hv) rfl rfl fun c hc => by
      rw [State.setOwner_self] at hc
      cases hc
  unfold State.crash
  cases hprobe : (s.owners w).call.bind (·.phase.probe?) with
  | none => exact hgone
  | some id =>
    change Sound ((s.setOwner w ⟨0, none⟩).mark id (s.unproven id))
    obtain ⟨c, hc, hphase⟩ := Option.bind_eq_some_iff.mp hprobe
    obtain ⟨hwork, hsound⟩ := h.calls w c hc
    have hmarks : ∀ i ∈ if s.unproven id = true then id :: s.uncertain else s.uncertain,
        i ∈ s.uncertain ∨ i = id ∧ s.unproven id = true := by
      intro i hi
      split at hi
      · rename_i hu
        exact (List.mem_cons.mp hi).elim (fun he => Or.inr ⟨he, hu⟩) Or.inl
      · exact Or.inl hi
    refine h.own hwork rfl (fun v hv => s.setOwner_ne _ hv) rfl (fun _ _ => rfl) (h.tracks _)
      (fun c' hc' => ?_) (fun p hp => ⟨p, hp, rfl⟩) (fun i hi => (hmarks i hi).imp_right fun he => ?_)
      fun p hp hi => ?_
    · change ((s.setOwner w ⟨0, none⟩).owners w).call = some c' at hc'
      rw [State.setOwner_self] at hc'
      cases hc'
    · obtain ⟨p, hp, hpid⟩ := (hsound.probe hphase).mem
      exact ⟨p, hp, hpid.trans he.1.symm⟩
    · have hp' : p ∈ s.journal.probes := (Journal.mem_probesOf.mp hp).1
      rcases hmarks _ hi with hi | ⟨hpid, hu⟩
      · exact h.uncertain p hp' hi
      · unfold State.unproven at hu
        rw [← hpid, Table.find?_self hp', Option.any_some, bne_iff_ne] at hu
        exact hu

theorem Sound.tick (h : Sound s) (now : Instant) : Sound (apply (.tick now) s) := by
  refine ⟨fun op => (h.tracks op).later (Nat.le_max_left ..), fun w c hc => ?_, h.marked,
    h.uncertain⟩
  obtain ⟨hwork, hsound⟩ := h.calls w c hc
  exact ⟨hwork, hsound.frame (fun _ hg => hg) rfl (Nat.le_max_left ..) fun _ hid => Or.inl hid⟩

/-- A new grant; the initial one is of the initial limit. -/
theorem Sound.addGrant (h : Sound s) {g : Grant}
    (hinitial : (∀ q ∈ s.journal.grantsOf g.operation, q.grantId ≠ g.grantId) →
      g.grantId = "initial" → g.maximum = probeLimit) :
    Sound { s with journal := s.journal.addGrant g } := by
  refine h.step g.operation.workKey rfl (fun _ _ => rfl)
    (fun op hop => Journal.grantsOf_addGrant_ne fun he => hop (he ▸ rfl)) (fun _ _ => rfl)
    (fun op _ => ?_) (fun c hc => ?_) (fun p hp => ⟨p, hp, rfl⟩) (fun _ hid => Or.inl hid)
    fun op _ p hp hid => h.uncertain p (Journal.mem_probesOf.mp hp).1 hid
  · change Track ((s.journal.addGrant g).grantsOf op) (s.journal.probesOf op) s.clock
    rcases Journal.grantsOf_addGrant s.journal g op with hg | ⟨rfl, hfresh, hg⟩
    · rw [hg]
      exact h.tracks op
    · rw [hg]
      exact (h.tracks _).addGrant hfresh (hinitial hfresh)
  · obtain ⟨hwork, hsound⟩ := h.calls _ c hc
    exact ⟨hwork, hsound.frame (fun _ hq => Journal.mem_addGrant hq) rfl (Nat.le_refl _)
      fun _ hid => Or.inl hid⟩

theorem Sound.installGrant (h : Sound s) (w : String) (repair : Repair) (day : CivilDate) :
    Sound { s with journal := installGrant w repair day s.journal } := by
  have hfirst : Sound { s with
      journal := s.journal.addGrant
        ⟨⟨w, operationKey repair.providerSymbol day⟩, "initial", probeLimit⟩ } :=
    h.addGrant fun _ _ => rfl
  refine hfirst.addGrant fun hfresh hid => ?_
  obtain ⟨q, hq, hqid⟩ := Journal.exists_addGrant s.journal
    ⟨⟨w, operationKey repair.providerSymbol day⟩, "initial", probeLimit⟩
  exact absurd (hqid.trans hid.symm) (hfresh q hq)

/-- An imported probe is the first of its operation. -/
theorem Sound.importCache (h : Sound s) (hw : (s.owners w).call = none) {op : Operation}
    (hop : op.workKey = w) {g : Grant} (hg : g ∈ s.journal.grantsOf op) (hid : g.grantId = "initial")
    (rejectedEmpty : Bool) :
    Sound { s with journal := s.journal.importCache op rejectedEmpty s.clock } := by
  unfold Journal.importCache
  split
  · rename_i hempty
    have hnil := List.isEmpty_iff.mp (Bool.and_eq_true_iff.mp hempty).2
    have hnew := Journal.probesOf_addProbe s.journal op "initial" s.clock .empty
    rw [hnil, List.nil_append] at hnew
    have htrack := h.tracks op
    rw [hnil] at htrack
    refine h.own hop rfl (fun _ _ => rfl) rfl
      (fun op' hop' => Journal.probesOf_addProbe_ne (Ne.symm hop') ..) ?_ (fun c hc => ?_)
      (fun p hp => ?_) (fun _ hid => Or.inl hid) fun p hp _ => ?_
    · change Track _ ((s.journal.addProbe op "initial" s.clock .empty).probesOf op) s.clock
      rw [hnew]
      refine htrack.append (p := ⟨_, op, "initial", s.clock, .empty⟩) hg hid
        (fun q hq hq' => Journal.grantsOf_unique hg hq (hq'.trans hid.symm)) ?_ nofun
        ⟨s.clock_pos, Nat.le_refl _⟩
      rw [htrack.initial g hg hid]
      exact Nat.succ_pos 2
    · rw [hw] at hc
      cases hc
    · rw [hnil] at hp
      cases hp
    · change p ∈ (s.journal.addProbe op "initial" s.clock .empty).probesOf op at hp
      rw [hnew] at hp
      rw [List.mem_singleton.mp hp]
      nofun
  · exact h

/-- Who is admitted has room under its grant, and the probes before it are old enough. -/
theorem Sound.grantOrWait (h : Sound s) {op : Operation} {grant : Grant}
    (hgrant : grant ∈ s.journal.grantsOf op) {generation : String}
    (hok : s.journal.grantOrWait op grant s.clock = .ok generation) :
    Ready s.journal s.clock op generation s.clock := by
  have hmax : ∀ p ∈ s.journal.probesOf op, p.outcome.counted = true →
      p.reservedAt ∈ ((s.journal.probesOf op).filter (·.outcome.counted)).map (·.reservedAt) :=
    fun p hp hcounted => List.mem_map_of_mem (List.mem_filter.mpr ⟨hp, hcounted⟩)
  unfold Journal.grantOrWait at hok
  split at hok
  · cases hok
  · rename_i hroom
    have hready : (∀ p ∈ s.journal.probesOf op, p.outcome.counted = true →
        p.reservedAt + retrySeconds ≤ s.clock) →
        Ready s.journal s.clock op grant.grantId s.clock := fun hapart =>
      ⟨⟨grant, hgrant, rfl, Nat.not_le.mp hroom⟩, hapart, s.clock_pos, Nat.le_refl _⟩
    split at hok
    · rename_i hnone
      cases hok
      refine hready fun p hp hcounted => ?_
      have hin := hmax p hp hcounted
      rw [List.max?_eq_none_iff.mp hnone] at hin
      cases hin
    · rename_i last hlast
      obtain ⟨hin, hle⟩ := List.max?_eq_some_iff.mp hlast
      split at hok
      · cases hok
      · rename_i hwait
        cases hok
        refine hready fun p hp hcounted => ?_
        obtain ⟨q, hq, hqlast⟩ := List.mem_map.mp hin
        have hpos := ((h.tracks op).past q (List.mem_filter.mp hq).1).1
        have hbelow := hle _ (hmax p hp hcounted)
        have hne : last ≠ 0 := hqlast ▸ Nat.ne_of_gt hpos
        have hdue : ¬ s.clock < last + retrySeconds := fun hlt => hwait ⟨hne, hlt⟩
        exact Nat.le_trans (Nat.add_le_add_right hbelow _) (Nat.not_lt.mp hdue)

/-- A call enters with the check behind it. -/
theorem Sound.enter (h : Sound s) (w : String) (arguments : Arguments) (rejectedEmpty : Bool) :
    Sound (s.enter w arguments rejectedEmpty) := by
  unfold State.enter check
  cases hw : (s.owners w).call with
  | some c => exact h
  | none =>
    have hgranted : Sound { s with
        journal := s.journal.addGrant ⟨arguments.operation w, "initial", probeLimit⟩ } :=
      h.addGrant fun _ _ => rfl
    obtain ⟨g, hg, hid⟩ := Journal.exists_addGrant s.journal
      ⟨arguments.operation w, "initial", probeLimit⟩
    dsimp only
    generalize s.journal.addGrant ⟨arguments.operation w, "initial", probeLimit⟩ = j
      at hgranted hg ⊢
    cases hlast : (j.grantsOf (arguments.operation w)).getLast? with
    | none => exact hgranted
    | some grant =>
      have himported := hgranted.importCache hw rfl hg hid rejectedEmpty
      have hgrant : grant ∈ (j.importCache (arguments.operation w) rejectedEmpty s.clock).grantsOf
          (arguments.operation w) := by
        unfold Journal.importCache
        split <;> exact List.mem_of_getLast? hlast
      dsimp only
      cases hgrantOrWait : (j.importCache (arguments.operation w) rejectedEmpty s.clock).grantOrWait
          (arguments.operation w) grant s.clock with
      | error wait => exact himported
      | ok generation =>
        refine himported.setCall fun c hc => ?_
        cases hc
        exact ⟨rfl, himported.grantOrWait hgrant hgrantOrWait⟩

theorem Sound.callStep (h : Sound s) (hc : (s.owners w).call = some c) (op : Op) :
    Sound (callStep op w c s) := by
  obtain ⟨hwork, hsound⟩ := h.calls w c hc
  have hgone : Sound (s.setCall w none) := h.setCall nofun
  -- Where the same is known of the probe, the call may go on.
  have hon : ∀ phase, CallSound s.journal s.clock s.uncertain (s.owners w).dispatchObservations
      { c with phase } → Sound (s.setCall w (some { c with phase })) :=
    fun phase hphase => h.setCall fun c' hc' => by
      cases hc'
      exact ⟨hwork, hphase⟩
  unfold Observation.callStep
  unfold CallSound at hsound
  split
  · exact hgone
  · rename_i hphase
    exact h.reserve hc hphase
  · rename_i run id hphase
    rw [hphase] at hsound
    obtain ⟨hheld, hunknown, hunsent⟩ := hsound
    split
    · refine h.same (w := w) rfl (fun v hv => s.setOwner_ne _ hv) rfl rfl fun c' hc' => ?_
      rw [State.exit, State.setOwner_self] at hc' ⊢
      cases hc.symm.trans hc'
      refine ⟨hwork, ?_⟩
      unfold CallSound
      rw [hphase]
      exact ⟨hheld.later (Nat.le_add_right ..) rfl rfl, hunknown, hunsent⟩
    · exact h.bootstrapFailed hc hphase run _
  · rename_i id hphase
    rw [hphase] at hsound
    exact hon (.fetching id) ⟨hsound.1.later (Nat.le_refl _) rfl rfl, hsound.2⟩
  · rename_i run id hphase
    exact h.kbars hc hphase run
  · rename_i failure id hphase
    rw [hphase] at hsound
    exact hon (.raising id failure) (hsound.1.later (Nat.le_refl _) rfl rfl)
  · rename_i failure id hphase
    rw [hphase] at hsound
    exact hon (.raising id failure) (hsound.1.later (Nat.le_refl _) rfl rfl)
  · rename_i failure id hphase
    rw [hphase] at hsound
    exact hon (.raising id failure) (hsound.later (Nat.le_refl _) rfl rfl)
  · rename_i snapshot id hphase
    exact h.observe hc hphase snapshot
  · exact hgone
  · exact hgone
  · rename_i id failure hphase
    exact h.except hc hphase
  · exact h

theorem Sound.apply (h : Sound s) (op : Op) : Sound (apply op s) := by
  unfold Observation.apply
  split
  · exact h.tick _
  · exact h.installGrant ..
  · exact h.enter ..
  · exact h.crash _
  · split
    · exact h
    · split
      · exact h
      · rename_i hc
        exact h.callStep hc op

theorem Reachable.sound (h : Reachable s) : Sound s := by
  obtain ⟨clock, hclock, hsteps⟩ := h
  refine hsteps.inv (fun _ op hs _ => hs.apply op) ⟨fun op => Track.nil clock, nofun, nofun, ?_⟩
  exact fun p hp => absurd hp (Table.not_mem_empty p)

/-- A grant is never overdrawn, counted probes are apart, and a probe whose bars may have been
requested is never free. -/
theorem observation_budget (h : Reachable s) :
    (∀ op, (∀ g ∈ s.journal.grantsOf op, (s.journal.counted op g.grantId).length ≤ g.maximum) ∧
      ((s.journal.probesOf op).filter (·.outcome.counted)).length ≤ probeLimit +
        (((s.journal.grantsOf op).filter (·.grantId != "initial")).map (·.maximum)).sum ∧
      ((s.journal.probesOf op).filter (·.outcome.counted)).Pairwise fun p q =>
        p.reservedAt + retrySeconds ≤ q.reservedAt) ∧
    ∀ p ∈ s.journal.probes, p.probeId ∈ s.uncertain → p.outcome ≠ .predispatch := by
  have hs := h.sound
  refine ⟨fun op => ⟨(hs.tracks op).bound, (hs.tracks op).total (Journal.grantsOf_nodup ..), ?_⟩,
    hs.uncertain⟩
  rw [List.pairwise_filter]
  exact (hs.tracks op).spaced.imp fun h hp hq => h hp hq

end

/-! ## A probe that was empty, one that crashed and one that waited -/

def sampleArguments : Arguments := ⟨"2330", ⟨2026, 1, 5, by decide⟩⟩

def sampleOps : List Op := [
  .enter "w" sampleArguments false, .reserve "w", .bootstrapped "w",
  .kbars "w" ⟨true, false, none⟩, .observe "w" ⟨true, false⟩, .leave "w",
  .tick (901 * second), .enter "w" sampleArguments false, .reserve "w", .bootstrapped "w", .crash "w",
  .tick (1900 * second), .enter "w" sampleArguments false, .reserve "w", .bootstrapped "w",
  .kbars "w" ⟨false, false, some .acquisitionStopped⟩, .except "w"]

def sampleState : State := runAll apply sampleOps (.init second (by decide))

theorem observation_budget_sample :
    sampleState.journal.probes.rows.map (fun p => (p.reservedAt, p.outcome)) =
      [(second, .empty), (901 * second, .unknown), (1900 * second, .predispatch)] ∧
    ((sampleState.journal.probesOf (sampleArguments.operation "w")).filter
      (·.outcome.counted)).length ≤ probeLimit + (((sampleState.journal.grantsOf
        (sampleArguments.operation "w")).filter (·.grantId != "initial")).map (·.maximum)).sum :=
  ⟨by decide +kernel, ((observation_budget ⟨second, by decide,
    runAll_steps sampleOps _ (admitted_of_forall (fun _ _ => trivial) ..)⟩).1 _).2.1⟩

end FinDB.Fetcher.Observation
