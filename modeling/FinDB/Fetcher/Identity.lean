import Mathlib.Data.List.Dedup
import Mathlib.Data.List.Sort
import FinDB.Fetcher.Ledger

/-! # Account identities

A credential is known by its digest. Digests that prove to be one account are bound
to one name, and what the other names owe is carried over, once for each name: the
audit row of a name keeps its debt from being counted twice. -/
namespace FinDB.Fetcher
open FinDB.Lib

/-- The arguments of `merge_identity`. -/
structure Merge where
  provider : Provider
  digest : Digest
  legacyDigest : Digest
  initial : Account
  knownDigests : List Digest
deriving DecidableEq, Repr

namespace Merge
variable (m : Merge) (l : Ledger)

/-- `sorted({digest, legacy_digest, *known_digests})`. -/
def digests : List Digest :=
  (m.digest :: m.legacyDigest :: m.knownDigests).dedup.insertionSort (· ≤ ·)

/-- The bound digests, the one of the credential first. -/
def rows : List Identity :=
  (m.digest :: m.digests.erase m.digest).filterMap fun d => l.identities.find? (m.provider, d)

def target : Account := ((m.rows l).head?.map (·.account)).getD m.initial

/-- Every digest is bound to the target. -/
def pinned : Bool :=
  (m.rows l).length == m.digests.length && (m.rows l).all (·.account == m.target l)

/-- The other names the digests are bound to. -/
def aliases : List Account := ((m.rows l).map (·.account)).dedup.filter (· != m.target l)

end Merge

/-! ## Carrying debt over -/

/-- A row of an alias or of one of its allocations, under the target's name. -/
def QuotaRow.rebase (r : QuotaRow) (alias_ target : Account) : QuotaRow :=
  { r with account := target ++ r.account.drop alias_.length }

def Intent.moveTo (target : Account) (i : Intent) : Intent := { i with account := target }

theorem Intent.moveTo_id (target : Account) (i : Intent) :
    (i.moveTo target).operationId = i.operationId := rfl

def Identity.moveTo (target : Account) (i : Identity) : Identity := { i with account := target }

theorem Identity.moveTo_key (target : Account) (i : Identity) : (i.moveTo target).key = i.key := rfl

namespace Ledger
variable (l : Ledger)

/-- The rows of an alias and of its allocations. -/
def quotaOf (alias_ : Account) : List QuotaRow :=
  l.quota.rows.filter fun r =>
    r.account == alias_ || (allocationAccount alias_ []).isPrefixOf r.account

theorem raise_account (until_ : Instant) (r : Pacing) :
    ({ r with nextAt := max r.nextAt until_ } : Pacing).account = r.account := rfl

def raisePacing (account : Account) (until_ : Instant) : Ledger :=
  { l with
    pacing := l.pacing.upsert ⟨account, until_⟩ (fun r => { r with nextAt := max r.nextAt until_ })
      (raise_account until_) }

/-- The charges of an alias, under the target's name. -/
def carried (alias_ target : Account) : Ledger :=
  (l.quotaOf alias_).foldl (fun l r => l.addRow (r.rebase alias_ target)) l

/-- What the first merge of an alias carries over. -/
def transfer (alias_ target : Account) : Ledger :=
  let paced := match l.pacing.find? alias_ with
    | some p => (l.carried alias_ target).raisePacing target p.nextAt
    | none => l.carried alias_ target
  let floored := match l.cooldown.find? alias_ with
    | some c => paced.recordFloor target c.notBefore c.reason
    | none => paced
  { floored with
    intents := floored.intents.update (·.account == alias_) (·.moveTo target)
      (Intent.moveTo_id target) }

/-- `INSERT OR IGNORE INTO account_alias_audit`. -/
def audited (alias_ target : Account) : Option Ledger :=
  (l.audit.insert? ⟨alias_, target, l.quotaOf alias_, l.nextAt alias_⟩).map ({ l with audit := · })

end Ledger

namespace Merge

/-- One alias: its debt the first time, its digests always. -/
def absorb (m : Merge) (target : Account) (l : Ledger) (alias_ : Account) : Ledger :=
  let l := match l.audited alias_ target with
    | some l => l.transfer alias_ target
    | none => l
  { l with
    identities := l.identities.update
      (fun i => i.provider == m.provider && i.account == alias_ &&
        m.digests.contains i.credentialSha256)
      (·.moveTo target) (Identity.moveTo_key target) }

def bind (m : Merge) (target : Account) (l : Ledger) (d : Digest) : Ledger :=
  { l with
    identities := l.identities.upsert ⟨m.provider, d, target⟩ (·.moveTo target)
      (Identity.moveTo_key target) }

/-- `merge_identity`. `order` is the order in which the set of aliases is walked. -/
def mergeIdentity (m : Merge) (order : List Account → List Account) (holdsAccountLock : Bool)
    (l : Ledger) : Except QuotaBlocked (Ledger × Account) :=
  let target := m.target l
  if m.pinned l then .ok (l, target)
  else if holdsAccountLock then
    .error ⟨"account identity cannot be updated during active acquisition", false⟩
  else .ok (m.digests.foldl (m.bind target) ((order (m.aliases l)).foldl (m.absorb target) l), target)

end Merge

/-! ## What a transfer does -/

namespace Ledger
variable {l : Ledger} {alias_ target : Account}

/-- The rows of an alias only move quota. -/
theorem foldl_addRow_eq (f : QuotaRow → QuotaRow) (rs : List QuotaRow) (l : Ledger) :
    rs.foldl (fun l r => l.addRow (f r)) l =
      { l with quota := (rs.foldl (fun l r => l.addRow (f r)) l).quota } := by
  induction rs generalizing l with
  | nil => rfl
  | cons r rest ih =>
    rw [List.foldl_cons, ih]
    rfl

theorem amount_foldl_addRow {g : QuotaRow → Nat} (hg : Counter g) (f : QuotaRow → QuotaRow)
    (rs : List QuotaRow) (l : Ledger) (account : Account) (w : Window) :
    (rs.foldl (fun l r => l.addRow (f r)) l).amount g account w =
      l.amount g account w +
        (rs.map fun r => if (f r).key = (account, w) then g (f r) else 0).sum := by
  induction rs generalizing l with
  | nil => rfl
  | cons r rest ih =>
    rw [List.foldl_cons, ih, amount_addRow _ hg, List.map_cons, List.sum_cons, Nat.add_assoc]

/-- Only the rows under the alias's own name land under the target's. -/
theorem rebase_key {r : QuotaRow} {w : Window}
    (h : (r.account == alias_ || (allocationAccount alias_ []).isPrefixOf r.account) = true) :
    (r.rebase alias_ target).key = (target, w) ↔ r.key = (alias_, w) := by
  by_cases ha : r.account = alias_
  · simp [QuotaRow.rebase, QuotaRow.key, ha]
  · have hprefix : (allocationAccount alias_ []).isPrefixOf r.account = true := by
      simpa [ha] using h
    obtain ⟨rest, hrest⟩ := List.isPrefixOf_iff_prefix.mp hprefix
    have hdrop : r.account.drop alias_.length = ":allocation:".toList ++ rest := by
      rw [← hrest]
      simp [allocationAccount]
    simp [QuotaRow.rebase, QuotaRow.key, ha, hdrop]

theorem sum_rebase {g : QuotaRow → Nat} (hg : Counter g) (w : Window) :
    ((l.quotaOf alias_).map fun r =>
      if (r.rebase alias_ target).key = (target, w) then g (r.rebase alias_ target) else 0).sum =
        l.amount g alias_ w := by
  unfold quotaOf amount
  rw [Table.sum_filter, ← Table.total_key]
  refine Table.total_congr fun r _ => ?_
  split
  · rename_i hp
    by_cases hk : r.key = (alias_, w)
    · rw [if_pos hk, if_pos ((rebase_key hp).mpr hk)]
      exact hg.account r _
    · rw [if_neg hk, if_neg fun he => hk ((rebase_key hp).mp he)]
  · rename_i hp
    rw [if_neg]
    intro hk
    simp only [QuotaRow.key, Prod.mk.injEq] at hk
    exact hp (by simp [hk.1])

theorem carried_eq (l : Ledger) (alias_ target : Account) :
    l.carried alias_ target = { l with quota := (l.carried alias_ target).quota } := by
  unfold carried
  exact foldl_addRow_eq _ _ _

theorem transfer_eq (l : Ledger) (alias_ target : Account) :
    l.transfer alias_ target =
      { l with
        quota := (l.carried alias_ target).quota
        pacing := (l.transfer alias_ target).pacing
        cooldown := (l.transfer alias_ target).cooldown
        intents := l.intents.update (·.account == alias_) (·.moveTo target)
          (Intent.moveTo_id target) } := by
  unfold transfer
  rw [carried_eq]
  cases l.pacing.find? alias_ <;> cases l.cooldown.find? alias_ <;> rfl

theorem amount_transfer {g : QuotaRow → Nat} (hg : Counter g) (l : Ledger)
    (alias_ target : Account) (w : Window) :
    (l.transfer alias_ target).amount g target w = l.amount g target w + l.amount g alias_ w := by
  rw [transfer_eq]
  change (l.carried alias_ target).amount g target w = _
  unfold carried
  rw [amount_foldl_addRow hg, sum_rebase hg]

theorem le_amount_transfer {g : QuotaRow → Nat} (hg : Counter g) (l : Ledger)
    (alias_ target account : Account) (w : Window) :
    l.amount g account w ≤ (l.transfer alias_ target).amount g account w := by
  rw [transfer_eq]
  change _ ≤ (l.carried alias_ target).amount g account w
  unfold carried
  rw [amount_foldl_addRow hg]
  exact Nat.le_add_right _ _

/-- A name that is neither the target's nor one of its allocations is left alone. -/
theorem amount_transfer_other {g : QuotaRow → Nat} (hg : Counter g) (l : Ledger)
    {alias_ target account : Account} (h : account ≠ target)
    (hplain : ¬ allocationAccount target [] <+: account) (w : Window) :
    (l.transfer alias_ target).amount g account w = l.amount g account w := by
  rw [transfer_eq]
  change (l.carried alias_ target).amount g account w = _
  unfold carried
  rw [amount_foldl_addRow hg, Nat.add_eq_left]
  refine List.sum_eq_zero_iff_forall_eq_nat.mpr fun n hn => ?_
  obtain ⟨r, hr, rfl⟩ := List.mem_map.mp hn
  refine if_neg fun hkey => ?_
  have haccount : target ++ r.account.drop alias_.length = account := congrArg Prod.fst hkey
  have hfilter := (List.mem_filter.mp hr).2
  by_cases ha : r.account = alias_
  · rw [ha, List.drop_length, List.append_nil] at haccount
    exact h haccount.symm
  · have hprefix : (allocationAccount alias_ []).isPrefixOf r.account = true := by
      simpa [ha] using hfilter
    obtain ⟨rest, hrest⟩ := List.isPrefixOf_iff_prefix.mp hprefix
    refine hplain ⟨rest, ?_⟩
    rw [← haccount, ← hrest]
    simp [allocationAccount]

theorem nextAt_raisePacing (l : Ledger) (account : Account) (until_ : Instant) (other : Account) :
    (l.raisePacing account until_).nextAt other =
      if account = other then max (l.nextAt other) until_ else l.nextAt other := by
  unfold nextAt raisePacing
  simp only [Table.find?_upsert]
  split
  · cases l.pacing.find? other with
    | none => exact (Nat.zero_max _).symm
    | some r => rfl
  · rfl

/-- Floors are carried over as well; the cooldown is also a floor of the pacing. -/
theorem nextAt_transfer (l : Ledger) (alias_ target other : Account) :
    (l.transfer alias_ target).nextAt other =
      if target = other then max (l.nextAt other) (max (l.nextAt alias_) (l.notBefore alias_))
      else l.nextAt other := by
  have hcarried : (l.carried alias_ target).nextAt other = l.nextAt other := by
    rw [carried_eq]
    rfl
  unfold transfer
  cases hp : l.pacing.find? alias_ with
  | none =>
    have hnext : l.nextAt alias_ = 0 := by simp [nextAt, hp]
    cases hc : l.cooldown.find? alias_ with
    | none =>
      have hbefore : l.notBefore alias_ = 0 := by simp [notBefore, hc]
      change (l.carried alias_ target).nextAt other = _
      simp [hcarried, hnext, hbefore]
    | some c =>
      have hbefore : l.notBefore alias_ = c.notBefore := by simp [notBefore, hc]
      change ((l.carried alias_ target).recordFloor target c.notBefore c.reason).nextAt other = _
      simp [nextAt_recordFloor, hcarried, hnext, hbefore]
  | some p =>
    have hnext : l.nextAt alias_ = p.nextAt := by simp [nextAt, hp]
    cases hc : l.cooldown.find? alias_ with
    | none =>
      have hbefore : l.notBefore alias_ = 0 := by simp [notBefore, hc]
      change ((l.carried alias_ target).raisePacing target p.nextAt).nextAt other = _
      simp [nextAt_raisePacing, hcarried, hnext, hbefore]
    | some c =>
      have hbefore : l.notBefore alias_ = c.notBefore := by simp [notBefore, hc]
      change (((l.carried alias_ target).raisePacing target p.nextAt).recordFloor target c.notBefore
        c.reason).nextAt other = _
      rw [nextAt_recordFloor, nextAt_raisePacing, hcarried, hnext, hbefore]
      split
      · exact Nat.max_assoc ..
      · rfl

theorem notBefore_transfer (l : Ledger) (alias_ target other : Account) :
    (l.transfer alias_ target).notBefore other =
      if target = other then max (l.notBefore other) (l.notBefore alias_)
      else l.notBefore other := by
  have hpaced : ∀ l' : Ledger, l'.cooldown = l.cooldown → l'.notBefore other = l.notBefore other := by
    intro l' h
    unfold notBefore
    rw [h]
  unfold transfer
  cases hc : l.cooldown.find? alias_ with
  | none =>
    have hbefore : l.notBefore alias_ = 0 := by simp [notBefore, hc]
    rw [hbefore, Nat.max_zero, ite_self]
    refine hpaced _ ?_
    rw [carried_eq]
    cases l.pacing.find? alias_ <;> rfl
  | some c =>
    have hbefore : l.notBefore alias_ = c.notBefore := by simp [notBefore, hc]
    rw [hbefore]
    have hfloor : ∀ l' : Ledger, l'.cooldown = l.cooldown →
        (l'.recordFloor target c.notBefore c.reason).notBefore other =
          if target = other then max (l.notBefore other) c.notBefore else l.notBefore other := by
      intro l' h
      rw [notBefore_recordFloor, hpaced l' h]
    refine hfloor _ ?_
    rw [carried_eq]
    cases l.pacing.find? alias_ <;> rfl

end Ledger

/-! ## What a merge does -/

namespace Merge
variable {m : Merge} {l : Ledger} {target alias_ : Account}

/-- An alias without an audit row is carried over; one with a row is not. -/
theorem absorb_cases (m : Merge) (target : Account) (l : Ledger) (alias_ : Account) :
    (l.audit.find? alias_ = none ∧ ∃ audit identities,
      (∀ b, b ≠ alias_ → audit.find? b = l.audit.find? b) ∧
      m.absorb target l alias_ =
        { ({ l with audit := audit } : Ledger).transfer alias_ target with
          identities := identities }) ∨
    (l.audit.find? alias_ ≠ none ∧
      ∃ identities, m.absorb target l alias_ = { l with identities := identities }) := by
  unfold absorb Ledger.audited
  cases h : l.audit.insert? ⟨alias_, target, l.quotaOf alias_, l.nextAt alias_⟩ with
  | none =>
    obtain ⟨q, hq, hkey⟩ := Table.insert?_eq_none h
    refine Or.inr ⟨fun hnone => Table.find?_eq_none.mp hnone q hq hkey, _, rfl⟩
  | some audit =>
    refine Or.inl ⟨Table.find?_eq_none.mpr (Table.insert?_fresh h), audit, _, fun b hb => ?_, rfl⟩
    rw [Table.find?_insert? h]
    exact if_neg fun he => hb he.symm

theorem audit_absorb {b : Account} (hb : b ≠ alias_) :
    (m.absorb target l alias_).audit.find? b = l.audit.find? b := by
  rcases absorb_cases m target l alias_ with ⟨_, audit, _, hother, heq⟩ | ⟨_, _, heq⟩
  · rw [heq, Ledger.transfer_eq]
    exact hother b hb
  · rw [heq]

theorem amount_absorb {g : QuotaRow → Nat} (hg : Ledger.Counter g)
    (h : l.audit.find? alias_ = none) (w : Window) :
    (m.absorb target l alias_).amount g target w =
      l.amount g target w + l.amount g alias_ w := by
  rcases absorb_cases m target l alias_ with ⟨_, audit, _, _, heq⟩ | ⟨hsome, _⟩
  · rw [heq]
    exact Ledger.amount_transfer hg { l with audit := audit } alias_ target w
  · exact absurd h hsome

theorem amount_absorb_audited (g : QuotaRow → Nat) (h : l.audit.find? alias_ ≠ none)
    (account : Account) (w : Window) :
    (m.absorb target l alias_).amount g account w = l.amount g account w := by
  rcases absorb_cases m target l alias_ with ⟨hnone, _⟩ | ⟨_, _, heq⟩
  · exact absurd hnone h
  · rw [heq]
    rfl

theorem amount_absorb_other {g : QuotaRow → Nat} (hg : Ledger.Counter g) {account : Account}
    (h : account ≠ target) (hplain : ¬ allocationAccount target [] <+: account) (w : Window) :
    (m.absorb target l alias_).amount g account w = l.amount g account w := by
  rcases absorb_cases m target l alias_ with ⟨_, audit, _, _, heq⟩ | ⟨hsome, _⟩
  · rw [heq]
    exact Ledger.amount_transfer_other hg { l with audit := audit } h hplain w
  · exact amount_absorb_audited g hsome account w

theorem le_amount_absorb {g : QuotaRow → Nat} (hg : Ledger.Counter g) (account : Account)
    (w : Window) : l.amount g account w ≤ (m.absorb target l alias_).amount g account w := by
  rcases absorb_cases m target l alias_ with ⟨_, audit, _, _, heq⟩ | ⟨_, _, heq⟩
  · rw [heq]
    exact Ledger.le_amount_transfer hg { l with audit := audit } alias_ target account w
  · rw [heq]
    exact Nat.le_refl _

/-- The floors of the target after an alias. -/
theorem floors_absorb (m : Merge) (target : Account) (h : l.audit.find? alias_ = none) :
    (m.absorb target l alias_).nextAt target =
      max (l.nextAt target) (max (l.nextAt alias_) (l.notBefore alias_)) ∧
    (m.absorb target l alias_).notBefore target =
      max (l.notBefore target) (l.notBefore alias_) := by
  rcases absorb_cases m target l alias_ with ⟨_, audit, _, _, heq⟩ | ⟨hsome, _⟩
  · rw [heq]
    have hnext := Ledger.nextAt_transfer { l with audit := audit } alias_ target target
    have hbefore := Ledger.notBefore_transfer { l with audit := audit } alias_ target target
    rw [if_pos rfl] at hnext hbefore
    exact ⟨hnext, hbefore⟩
  · exact absurd h hsome

theorem floors_absorb_other (m : Merge) {account : Account} (h : account ≠ target) :
    (m.absorb target l alias_).nextAt account = l.nextAt account ∧
    (m.absorb target l alias_).notBefore account = l.notBefore account := by
  rcases absorb_cases m target l alias_ with ⟨_, audit, _, _, heq⟩ | ⟨_, _, heq⟩
  · rw [heq]
    have hnext := Ledger.nextAt_transfer { l with audit := audit } alias_ target account
    have hbefore := Ledger.notBefore_transfer { l with audit := audit } alias_ target account
    rw [if_neg fun he => h he.symm] at hnext hbefore
    exact ⟨hnext, hbefore⟩
  · rw [heq]
    exact ⟨rfl, rfl⟩

/-- An alias with an audit row leaves the floors. -/
theorem floors_absorb_audited (m : Merge) (target : Account) (h : l.audit.find? alias_ ≠ none) :
    (m.absorb target l alias_).nextAt target = l.nextAt target ∧
    (m.absorb target l alias_).notBefore target = l.notBefore target := by
  rcases absorb_cases m target l alias_ with ⟨hnone, _⟩ | ⟨_, _, heq⟩
  · exact absurd hnone h
  · rw [heq]
    exact ⟨rfl, rfl⟩

/-- An intent that is not the target's is one from before, under no name just carried over. -/
theorem mem_absorb {i : Intent} (h : i ∈ (m.absorb target l alias_).intents) :
    i.account = target ∨
      (i ∈ l.intents ∧ (i.account = alias_ → l.audit.find? alias_ ≠ none)) := by
  rcases absorb_cases m target l alias_ with ⟨_, audit, _, _, heq⟩ | ⟨hsome, _, heq⟩
  · rw [heq, Ledger.transfer_eq] at h
    have h : i ∈ l.intents.update (·.account == alias_) (·.moveTo target)
      (Intent.moveTo_id target) := h
    obtain ⟨j, hj, rfl⟩ := Table.mem_update.mp h
    split
    · exact Or.inl rfl
    · rename_i hne
      exact Or.inr ⟨hj, fun he => absurd (beq_iff_eq.mpr he) hne⟩
  · rw [heq] at h
    exact Or.inr ⟨h, fun _ => hsome⟩

/-! ## All aliases -/

/-- What is carried over adds up, in any order of the aliases. -/
theorem amount_absorbAll {g : QuotaRow → Nat} (hg : Ledger.Counter g) {w : Window}
    (f : Account → Nat) (as : List Account) (l : Ledger) (hn : as.Nodup)
    (hf : ∀ a ∈ as, f a = 0 ∨ (l.audit.find? a = none ∧ f a ≤ l.amount g a w)) :
    l.amount g target w + (as.map f).sum ≤ (as.foldl (m.absorb target) l).amount g target w := by
  induction as generalizing l with
  | nil => exact Nat.le_refl _
  | cons a rest ih =>
    obtain ⟨hnot, hn⟩ := List.nodup_cons.mp hn
    have hrest := ih (m.absorb target l a) hn fun b hb => by
      rcases hf b (List.mem_cons_of_mem _ hb) with h0 | ⟨hfresh, hle⟩
      · exact Or.inl h0
      · refine Or.inr ⟨?_, hle.trans (le_amount_absorb hg b w)⟩
        rw [audit_absorb fun he : b = a => hnot (he ▸ hb)]
        exact hfresh
    have hfirst : l.amount g target w + f a ≤ (m.absorb target l a).amount g target w := by
      rcases hf a List.mem_cons_self with h0 | ⟨hfresh, hle⟩
      · rw [h0]
        exact le_amount_absorb hg target w
      · rw [amount_absorb hg hfresh]
        exact Nat.add_le_add_left hle _
    rw [List.map_cons, List.sum_cons, List.foldl_cons]
    omega

/-- And nothing else is added, where no alias is an allocation of the target. -/
theorem amount_absorbAll_le {g : QuotaRow → Nat} (hg : Ledger.Counter g) {w : Window}
    (f : Account → Nat) (as : List Account) (l : Ledger) (hn : as.Nodup) (ht : target ∉ as)
    (hplain : ∀ a ∈ as, ¬ allocationAccount target [] <+: a)
    (hf : ∀ a ∈ as, l.audit.find? a = none → l.amount g a w ≤ f a) :
    (as.foldl (m.absorb target) l).amount g target w ≤ l.amount g target w + (as.map f).sum := by
  induction as generalizing l with
  | nil => exact Nat.le_refl _
  | cons a rest ih =>
    obtain ⟨hnot, hn⟩ := List.nodup_cons.mp hn
    have hrest := ih (m.absorb target l a) hn (fun h => ht (List.mem_cons_of_mem _ h))
      (fun b hb => hplain b (List.mem_cons_of_mem _ hb)) fun b hb hb' => by
        have hmem := List.mem_cons_of_mem a hb
        rw [audit_absorb fun he : b = a => hnot (he ▸ hb)] at hb'
        rw [amount_absorb_other hg (fun he : b = target => ht (he ▸ hmem)) (hplain b hmem)]
        exact hf b hmem hb'
    have hfirst : (m.absorb target l a).amount g target w ≤ l.amount g target w + f a := by
      by_cases hfresh : l.audit.find? a = none
      · rw [amount_absorb hg hfresh]
        exact Nat.add_le_add_left (hf a List.mem_cons_self hfresh) _
      · rw [amount_absorb_audited g hfresh]
        exact Nat.le_add_right _ _
    rw [List.map_cons, List.sum_cons, List.foldl_cons]
    omega

/-- A floor of the target is the longest of its own and those carried over. -/
theorem floor_absorbAll (m : Merge) {floor carry : Ledger → Account → Instant}
    (hfresh : ∀ {l a}, l.audit.find? a = none →
      floor (m.absorb target l a) target = max (floor l target) (carry l a))
    (haudited : ∀ {l a}, l.audit.find? a ≠ none →
      floor (m.absorb target l a) target = floor l target)
    (hother : ∀ {l a b}, b ≠ target → carry (m.absorb target l a) b = carry l b)
    (as : List Account) (l : Ledger) (hn : as.Nodup) (ht : target ∉ as) (x : Instant) :
    floor (as.foldl (m.absorb target) l) target ≤ x ↔
      floor l target ≤ x ∧ ∀ a ∈ as, l.audit.find? a = none → carry l a ≤ x := by
  induction as generalizing l with
  | nil => simp
  | cons a rest ih =>
    obtain ⟨hnot, hn⟩ := List.nodup_cons.mp hn
    have hrest : (∀ b ∈ rest, (m.absorb target l a).audit.find? b = none →
          carry (m.absorb target l a) b ≤ x) ↔
        ∀ b ∈ rest, l.audit.find? b = none → carry l b ≤ x := by
      refine forall_congr' fun b => forall_congr' fun hb => ?_
      rw [audit_absorb fun he : b = a => hnot (he ▸ hb),
        hother fun he : b = target => ht (he ▸ List.mem_cons_of_mem _ hb)]
    rw [List.foldl_cons, ih _ hn fun h => ht (List.mem_cons_of_mem _ h), hrest,
      List.forall_mem_cons]
    by_cases ha : l.audit.find? a = none
    · rw [hfresh ha, Nat.max_le]
      exact ⟨fun h => ⟨h.1.1, fun _ => h.1.2, h.2⟩, fun h => ⟨⟨h.1, h.2.1 ha⟩, h.2.2⟩⟩
    · rw [haudited ha]
      exact ⟨fun h => ⟨h.1, fun hnone => absurd hnone ha, h.2⟩, fun h => ⟨h.1, h.2.2⟩⟩

theorem nextAt_absorbAll (m : Merge) (as : List Account) (l : Ledger) (hn : as.Nodup)
    (ht : target ∉ as) (x : Instant) :
    (as.foldl (m.absorb target) l).nextAt target ≤ x ↔
      l.nextAt target ≤ x ∧ ∀ a ∈ as, l.audit.find? a = none →
        max (l.nextAt a) (l.notBefore a) ≤ x :=
  floor_absorbAll m (fun h => (floors_absorb m target h).1)
    (fun h => (floors_absorb_audited m target h).1)
    (fun h => by rw [(floors_absorb_other m h).1, (floors_absorb_other m h).2]) as l hn ht x

theorem notBefore_absorbAll (m : Merge) (as : List Account) (l : Ledger) (hn : as.Nodup)
    (ht : target ∉ as) (x : Instant) :
    (as.foldl (m.absorb target) l).notBefore target ≤ x ↔
      l.notBefore target ≤ x ∧ ∀ a ∈ as, l.audit.find? a = none → l.notBefore a ≤ x :=
  floor_absorbAll m (fun h => (floors_absorb m target h).2)
    (fun h => (floors_absorb_audited m target h).2) (fun h => (floors_absorb_other m h).2)
    as l hn ht x

theorem mem_absorbAll (as : List Account) (l : Ledger) (hn : as.Nodup) {i : Intent}
    (h : i ∈ (as.foldl (m.absorb target) l).intents) :
    i.account = target ∨
      (i ∈ l.intents ∧ (i.account ∈ as → l.audit.find? i.account ≠ none)) := by
  induction as generalizing l with
  | nil => exact Or.inr ⟨h, fun hmem => absurd hmem List.not_mem_nil⟩
  | cons a rest ih =>
    obtain ⟨hnot, hn⟩ := List.nodup_cons.mp hn
    rcases ih (m.absorb target l a) hn h with ht | ⟨hmem, hrest⟩
    · exact Or.inl ht
    · rcases mem_absorb hmem with ht | ⟨hold, hfirst⟩
      · exact Or.inl ht
      · refine Or.inr ⟨hold, fun hin => ?_⟩
        rcases List.mem_cons.mp hin with he | hin
        · rw [he]
          exact hfirst he
        · have hne : i.account ≠ a := fun he => hnot (he ▸ hin)
          have hsome := hrest hin
          rwa [audit_absorb hne] at hsome

/-- The intents of a name with an audit row stay where they are. -/
theorem mem_absorbAll_of_audited (as : List Account) (l : Ledger) {i : Intent} (h : i ∈ l.intents)
    (haudit : l.audit.find? i.account ≠ none) : i ∈ (as.foldl (m.absorb target) l).intents := by
  induction as generalizing l with
  | nil => exact h
  | cons a rest ih =>
    refine ih (m.absorb target l a) ?_ ?_
    · rcases absorb_cases m target l a with ⟨hfresh, audit, _, _, heq⟩ | ⟨_, _, heq⟩
      · rw [heq, Ledger.transfer_eq]
        have hne : i.account ≠ a := fun he => haudit (he ▸ hfresh)
        have hmem : i ∈ l.intents.update (·.account == a) (·.moveTo target)
            (Intent.moveTo_id target) := by
          refine Table.mem_update.mpr ⟨i, h, ?_⟩
          rw [if_neg (by simpa using hne)]
        exact hmem
      · rw [heq]
        exact h
    · by_cases hne : i.account = a
      · rcases absorb_cases m target l a with ⟨hfresh, _⟩ | ⟨_, _, heq⟩
        · exact absurd (hne ▸ hfresh) haudit
        · rw [heq]
          exact haudit
      · rw [audit_absorb hne]
        exact haudit

/-! ## The digests -/

theorem bind_find? (d : Digest) (k : Provider × Digest) :
    (m.bind target l d).identities.find? k =
      if (m.provider, d) = k then
        some ((l.identities.find? k).elim ⟨m.provider, d, target⟩ (·.moveTo target))
      else l.identities.find? k := by
  unfold bind
  exact Table.find?_upsert

/-- A digest that is bound stays bound while the others are. -/
theorem bindAll_find? (ds : List Digest) (l : Ledger) {d : Digest}
    (h : d ∈ ds ∨ ∃ i, l.identities.find? (m.provider, d) = some i ∧ i.account = target) :
    ∃ i, (ds.foldl (m.bind target) l).identities.find? (m.provider, d) = some i ∧
      i.account = target := by
  induction ds generalizing l with
  | nil => exact h.resolve_left List.not_mem_nil
  | cons e rest ih =>
    refine ih (m.bind target l e) ?_
    by_cases hed : e = d
    · right
      rw [bind_find?, if_pos (by rw [hed])]
      refine ⟨_, rfl, ?_⟩
      cases l.identities.find? (m.provider, d) <;> rfl
    · rcases h with hmem | hbound
      · exact Or.inl ((List.mem_cons.mp hmem).resolve_left fun he => hed he.symm)
      · right
        rw [bind_find?, if_neg fun he => hed (Prod.mk.inj he).2]
        exact hbound

theorem bindAll_eq (ds : List Digest) (l : Ledger) :
    ds.foldl (m.bind target) l =
      { l with identities := (ds.foldl (m.bind target) l).identities } := by
  induction ds generalizing l with
  | nil => rfl
  | cons d rest ih =>
    rw [List.foldl_cons, ih]
    rfl

theorem mem_digests {d : Digest} :
    d ∈ m.digests ↔ d = m.digest ∨ d = m.legacyDigest ∨ d ∈ m.knownDigests := by
  unfold digests
  rw [List.mem_insertionSort, List.mem_dedup]
  simp only [List.mem_cons]

/-- Digests that are all bound to one name are pinned to it. -/
theorem pinned_of_bound (h : ∀ d ∈ m.digests, ∃ i, l.identities.find? (m.provider, d) = some i ∧
    i.account = target) : m.pinned l = true ∧ m.target l = target := by
  have hperm : (m.digest :: m.digests.erase m.digest).Perm m.digests :=
    (List.perm_cons_erase (mem_digests.mpr (Or.inl rfl))).symm
  have hrows : ∀ ds : List Digest, (∀ d ∈ ds, ∃ i, l.identities.find? (m.provider, d) = some i ∧
      i.account = target) →
      (ds.filterMap fun d => l.identities.find? (m.provider, d)).length = ds.length ∧
      ∀ i ∈ ds.filterMap fun d => l.identities.find? (m.provider, d), i.account = target := by
    intro ds hds
    induction ds with
    | nil => exact ⟨rfl, fun i hi => absurd hi List.not_mem_nil⟩
    | cons d rest ih =>
      obtain ⟨i, hi, hacc⟩ := hds d List.mem_cons_self
      obtain ⟨hlen, hall⟩ := ih fun e he => hds e (List.mem_cons_of_mem _ he)
      rw [List.filterMap_cons, hi]
      refine ⟨by simp only [List.length_cons, hlen], fun j hj => ?_⟩
      rcases List.mem_cons.mp hj with rfl | hj
      · exact hacc
      · exact hall j hj
  obtain ⟨hlen, hall⟩ := hrows _ fun d hd => h d (hperm.mem_iff.mp hd)
  have htarget : m.target l = target := by
    obtain ⟨i, hi, hacc⟩ := h m.digest (mem_digests.mpr (Or.inl rfl))
    simp [Merge.target, rows, hi, hacc]
  refine ⟨?_, htarget⟩
  unfold pinned
  rw [htarget, Bool.and_eq_true, beq_iff_eq, List.all_eq_true]
  exact ⟨hlen.trans hperm.length_eq, fun i hi => beq_iff_eq.mpr (hall i hi)⟩

theorem bound_of_pinned (h : m.pinned l = true) {d : Digest} (hd : d ∈ m.digests) :
    ∃ i, l.identities.find? (m.provider, d) = some i ∧ i.account = m.target l := by
  have hperm : (m.digest :: m.digests.erase m.digest).Perm m.digests :=
    (List.perm_cons_erase (mem_digests.mpr (Or.inl rfl))).symm
  simp only [pinned, Bool.and_eq_true, beq_iff_eq, List.all_eq_true] at h
  obtain ⟨hlen, hall⟩ := h
  unfold rows at hlen
  rw [← hperm.length_eq, List.filterMap_length_eq_length] at hlen
  obtain ⟨i, hi⟩ := Option.isSome_iff_exists.mp (hlen d (hperm.mem_iff.mpr hd))
  exact ⟨i, hi, hall i (List.mem_filterMap.mpr ⟨d, hperm.mem_iff.mpr hd, hi⟩)⟩

theorem aliases_of_pinned (h : m.pinned l = true) : m.aliases l = [] := by
  simp only [pinned, Bool.and_eq_true, beq_iff_eq, List.all_eq_true] at h
  refine List.filter_eq_nil_iff.mpr fun a ha => ?_
  obtain ⟨i, hi, rfl⟩ := List.mem_map.mp (List.mem_dedup.mp ha)
  simp [h.2 i hi]

end Merge

/-! ## Conservation -/

/-- What the audit row of an account says has been carried over. -/
def Ledger.transferred (l : Ledger) (g : QuotaRow → Nat) (account : Account) (w : Window) : Nat :=
  (l.audit.find? account).elim 0 fun r =>
    ((r.originalQuota.filter (·.key == (account, w))).map g).sum

/-- The debt of an account that has not been carried over. -/
def Ledger.owed (l : Ledger) (g : QuotaRow → Nat) (account : Account) (w : Window) : Nat :=
  l.amount g account w - l.transferred g account w

/-- A merge that loses nothing and counts nothing twice. -/
structure Merge.Conserves (m : Merge) (order : List Account → List Account) (l l' : Ledger)
    (target : Account) : Prop where
  bound : ∀ d ∈ m.digests, ∃ i, l'.identities.find? (m.provider, d) = some i ∧ i.account = target
  requests : ∀ w, l.used target w + ((m.aliases l).map (l.owed (·.requests) · w)).sum ≤
    l'.used target w
  bytes : ∀ w, l.usedBytes target w + ((m.aliases l).map (l.owed (·.bytes) · w)).sum ≤
    l'.usedBytes target w
  pacing : ∀ a, a = target ∨ a ∈ m.aliases l → l.nextAt a ≤ l'.nextAt target
  cooldown : ∀ a, a = target ∨ a ∈ m.aliases l → l.notBefore a ≤ l'.notBefore target
  noOpenIntent : ∀ i ∈ l'.intents, i.status.open_ = true → i.account ∉ m.aliases l
  again : ∀ holdsAccountLock, m.mergeIdentity order holdsAccountLock l' = .ok (l', target)

/-- An alias that was carried over before has nothing new: no charge above its audit row,
no floor above those of the target and of the names carried over now, no open intent. -/
def Merge.Clean (m : Merge) (l : Ledger) : Prop :=
  ∀ a ∈ m.aliases l, l.audit.find? a ≠ none →
    (∀ w, l.owed (·.requests) a w = 0 ∧ l.owed (·.bytes) a w = 0) ∧
    (l.nextAt a ≤ l.nextAt (m.target l) ∨ ∃ c ∈ m.aliases l, l.audit.find? c = none ∧
      l.nextAt a ≤ max (l.nextAt c) (l.notBefore c)) ∧
    (l.notBefore a ≤ l.notBefore (m.target l) ∨ ∃ c ∈ m.aliases l, l.audit.find? c = none ∧
      l.notBefore a ≤ l.notBefore c) ∧
    ∀ i ∈ l.intents, i.status.open_ = true → i.account ≠ a

theorem Ledger.owed_of_fresh {l : Ledger} {account : Account} (h : l.audit.find? account = none)
    (g : QuotaRow → Nat) (w : Window) : l.owed g account w = l.amount g account w := by
  simp [owed, transferred, h]

section Conservation
variable {m : Merge} {l : Ledger} {as : List Account}

theorem Merge.nodup_aliases (m : Merge) (l : Ledger) : (m.aliases l).Nodup :=
  (List.nodup_dedup _).filter _

theorem Merge.target_notMem_aliases (m : Merge) (l : Ledger) : m.target l ∉ m.aliases l := by
  simp [Merge.aliases]

/-- The debt of the aliases reaches the target if the names with an audit row owe nothing. -/
theorem Merge.amount_merged (hperm : as.Perm (m.aliases l)) {g : QuotaRow → Nat}
    (hg : Ledger.Counter g) {w : Window}
    (hclean : ∀ a ∈ m.aliases l, l.audit.find? a ≠ none → l.owed g a w = 0) :
    l.amount g (m.target l) w + ((m.aliases l).map (l.owed g · w)).sum ≤
      (as.foldl (m.absorb (m.target l)) l).amount g (m.target l) w := by
  rw [← (hperm.map (l.owed g · w)).sum_nat]
  refine amount_absorbAll hg (l.owed g · w) as l (hperm.nodup_iff.mpr (m.nodup_aliases l))
    fun a ha => ?_
  by_cases hfresh : l.audit.find? a = none
  · exact Or.inr ⟨hfresh, le_of_eq (l.owed_of_fresh hfresh g w)⟩
  · exact Or.inl (hclean a (hperm.mem_iff.mp ha) hfresh)

/-- And only then. -/
theorem Merge.owed_of_merged (hperm : as.Perm (m.aliases l)) {g : QuotaRow → Nat}
    (hg : Ledger.Counter g) {w : Window}
    (hplain : ∀ a ∈ m.aliases l, ¬ allocationAccount (m.target l) [] <+: a)
    (hle : l.amount g (m.target l) w + ((m.aliases l).map (l.owed g · w)).sum ≤
      (as.foldl (m.absorb (m.target l)) l).amount g (m.target l) w)
    {a : Account} (ha : a ∈ m.aliases l) (haudit : l.audit.find? a ≠ none) : l.owed g a w = 0 := by
  let f : Account → Nat := fun a => if l.audit.find? a = none then l.owed g a w else 0
  let rest : Account → Nat := fun a => if l.audit.find? a = none then 0 else l.owed g a w
  have hupper : (as.foldl (m.absorb (m.target l)) l).amount g (m.target l) w ≤
      l.amount g (m.target l) w + (as.map f).sum := by
    refine amount_absorbAll_le hg f as l (hperm.nodup_iff.mpr (m.nodup_aliases l))
      (fun h => m.target_notMem_aliases l (hperm.mem_iff.mp h))
      (fun b hb => hplain b (hperm.mem_iff.mp hb)) fun b _ hfresh => ?_
    simp only [f, if_pos hfresh, l.owed_of_fresh hfresh g w, le_refl]
  rw [(hperm.map f).sum_nat] at hupper
  have hsplit : ∀ bs : List Account,
      (bs.map (l.owed g · w)).sum = (bs.map f).sum + (bs.map rest).sum := by
    intro bs
    induction bs with
    | nil => rfl
    | cons b bs ih =>
      have hb : l.owed g b w = f b + rest b := by
        by_cases hfresh : l.audit.find? b = none
        · simp [f, rest, hfresh]
        · simp [f, rest, hfresh]
      simp only [List.map_cons, List.sum_cons, ih, hb]
      omega
  have hzero : ((m.aliases l).map rest).sum = 0 := by
    have := hsplit (m.aliases l)
    omega
  have hrest := List.sum_eq_zero_iff_forall_eq_nat.mp hzero (rest a) (List.mem_map_of_mem ha)
  simpa [rest, haudit] using hrest

theorem Merge.conserves_pinned (order : List Account → List Account) (h : m.pinned l = true) :
    m.Conserves order l l (m.target l) := by
  have hnone := aliases_of_pinned h
  refine ⟨fun d hd => bound_of_pinned h hd, fun w => ?_, fun w => ?_, fun a ha => ?_,
    fun a ha => ?_, fun i _ _ => ?_, fun b => ?_⟩
  · simp [hnone]
  · simp [hnone]
  · rw [hnone] at ha
    rw [ha.resolve_right List.not_mem_nil]
  · rw [hnone] at ha
    rw [ha.resolve_right List.not_mem_nil]
  · simp [hnone]
  · unfold mergeIdentity
    exact if_pos h

theorem Merge.conserves_merged (order : List Account → List Account)
    (hperm : as.Perm (m.aliases l)) (hclean : m.Clean l) :
    m.Conserves order l
      (m.digests.foldl (m.bind (m.target l)) (as.foldl (m.absorb (m.target l)) l))
      (m.target l) := by
  have hn : as.Nodup := hperm.nodup_iff.mpr (m.nodup_aliases l)
  have ht : m.target l ∉ as := fun h => m.target_notMem_aliases l (hperm.mem_iff.mp h)
  have hbound : ∀ d ∈ m.digests, ∃ i, (m.digests.foldl (m.bind (m.target l))
      (as.foldl (m.absorb (m.target l)) l)).identities.find? (m.provider, d) = some i ∧
        i.account = m.target l := fun d hd => bindAll_find? _ _ (Or.inl hd)
  obtain ⟨hnext, hcarryNext⟩ := (nextAt_absorbAll m as l hn ht _).mp (le_refl _)
  obtain ⟨hbefore, hcarryBefore⟩ := (notBefore_absorbAll m as l hn ht _).mp (le_refl _)
  obtain ⟨hpinned, htarget⟩ := pinned_of_bound hbound
  rw [bindAll_eq] at hpinned htarget hbound ⊢
  refine ⟨hbound, fun w => ?_, fun w => ?_, fun a ha => ?_, fun a ha => ?_,
    fun i hi hopen hin => ?_, fun b => ?_⟩
  · exact amount_merged hperm Ledger.counter_requests fun a ha hs => ((hclean a ha hs).1 w).1
  · exact amount_merged hperm Ledger.counter_bytes fun a ha hs => ((hclean a ha hs).1 w).2
  · rcases ha with rfl | ha
    · exact hnext
    · by_cases hfresh : l.audit.find? a = none
      · exact (Nat.le_max_left _ _).trans (hcarryNext a (hperm.mem_iff.mpr ha) hfresh)
      · rcases (hclean a ha hfresh).2.1 with hle | ⟨c, hc, hfresh, hle⟩
        · exact hle.trans hnext
        · exact hle.trans (hcarryNext c (hperm.mem_iff.mpr hc) hfresh)
  · rcases ha with rfl | ha
    · exact hbefore
    · by_cases hfresh : l.audit.find? a = none
      · exact hcarryBefore a (hperm.mem_iff.mpr ha) hfresh
      · rcases (hclean a ha hfresh).2.2.1 with hle | ⟨c, hc, hfresh, hle⟩
        · exact hle.trans hbefore
        · exact hle.trans (hcarryBefore c (hperm.mem_iff.mpr hc) hfresh)
  · rcases mem_absorbAll as l hn hi with hsame | ⟨hold, haudit⟩
    · exact m.target_notMem_aliases l (hsame ▸ hin)
    · exact (hclean _ hin (haudit (hperm.mem_iff.mpr hin))).2.2.2 i hold hopen rfl
  · unfold mergeIdentity
    rw [if_pos hpinned, htarget]

theorem Merge.clean_of_conserves {order : List Account → List Account}
    (hperm : as.Perm (m.aliases l))
    (hplain : ∀ a ∈ m.aliases l, ¬ allocationAccount (m.target l) [] <+: a)
    (h : m.Conserves order l
      (m.digests.foldl (m.bind (m.target l)) (as.foldl (m.absorb (m.target l)) l))
      (m.target l)) : m.Clean l := by
  have hn : as.Nodup := hperm.nodup_iff.mpr (m.nodup_aliases l)
  have ht : m.target l ∉ as := fun h => m.target_notMem_aliases l (hperm.mem_iff.mp h)
  rw [bindAll_eq] at h
  intro a ha haudit
  refine ⟨fun w => ⟨?_, ?_⟩, ?_, ?_, fun i hi hopen hacc => ?_⟩
  · exact owed_of_merged hperm Ledger.counter_requests hplain (h.requests w) ha haudit
  · exact owed_of_merged hperm Ledger.counter_bytes hplain (h.bytes w) ha haudit
  · -- A floor that nothing reaches would be above the target's.
    by_contra hnot
    simp only [not_or, not_le, not_exists, not_and] at hnot
    have hbelow := (nextAt_absorbAll m as l hn ht (l.nextAt a - 1)).mpr
      ⟨Nat.le_sub_one_of_lt hnot.1, fun c hc hfresh =>
        Nat.le_sub_one_of_lt (hnot.2 c (hperm.mem_iff.mp hc) hfresh)⟩
    exact absurd (h.pacing a (Or.inr ha))
      (not_le.mpr (lt_of_le_of_lt hbelow (Nat.sub_one_lt_of_lt hnot.1)))
  · by_contra hnot
    simp only [not_or, not_le, not_exists, not_and] at hnot
    have hbelow := (notBefore_absorbAll m as l hn ht (l.notBefore a - 1)).mpr
      ⟨Nat.le_sub_one_of_lt hnot.1, fun c hc hfresh =>
        Nat.le_sub_one_of_lt (hnot.2 c (hperm.mem_iff.mp hc) hfresh)⟩
    exact absurd (h.cooldown a (Or.inr ha))
      (not_le.mpr (lt_of_le_of_lt hbelow (Nat.sub_one_lt_of_lt hnot.1)))
  · have hmem : i ∈ (as.foldl (m.absorb (m.target l)) l).intents :=
      mem_absorbAll_of_audited as l hi (hacc ▸ haudit)
    exact h.noOpenIntent i hmem hopen (hacc ▸ ha)

end Conservation

/-- **Merging conserves debt** exactly when no alias carried over before has been charged,
paced or armed again since. (An alias that is itself an allocation of the target may be
repaid by another one, so there the condition is only enough.) -/
theorem merge_conserves_debt_iff (m : Merge) (order : List Account → List Account)
    (horder : ∀ as, (order as).Perm as) (holdsAccountLock : Bool) (l l' : Ledger)
    (target : Account) (h : m.mergeIdentity order holdsAccountLock l = .ok (l', target)) :
    (m.Clean l → m.Conserves order l l' target) ∧
    ((∀ a ∈ m.aliases l, ¬ allocationAccount target [] <+: a) →
      m.Conserves order l l' target → m.Clean l) := by
  unfold Merge.mergeIdentity at h
  split at h
  · rename_i hpinned
    cases h
    refine ⟨fun _ => Merge.conserves_pinned order hpinned, fun _ _ a ha => ?_⟩
    rw [Merge.aliases_of_pinned hpinned] at ha
    cases ha
  · split at h
    · cases h
    · cases h
      have hperm := horder (m.aliases l)
      exact ⟨Merge.conserves_merged order hperm, Merge.clean_of_conserves hperm⟩

/-- The digests `digest` and `others` of one FinLab credential. -/
def finlabMerge (digest : Digest) (initial : String) (others : List Digest) : Merge :=
  ⟨.finlab, digest, digest, initial.toList, others⟩

/-- `requests` requests of an account. -/
def requestsOf (account : String) (requests : Nat) : Reservation :=
  ⟨account.toList, 0, requests, 0, none, none, none, true, none, 0, 0⟩

/-- Digests 1 and 2 are account `a`, which is charged, and 3 is `t`. -/
def chargedOnce : Option Ledger := do
  let (l, _) ← ((finlabMerge 1 "a" [2]).mergeIdentity id false .empty).toOption
  let (l, _) ← ((finlabMerge 3 "t" []).mergeIdentity id false l).toOption
  let (l, _) ← (reserveAcquisition (requestsOf "a" 5) 0 l).toOption
  return l

/-- Digest 1 proves to be `t`, and then `a` is charged under digest 2, which is still
bound to it. -/
def chargedAgain : Option Ledger := do
  let (l, _) ← ((finlabMerge 3 "t" [1]).mergeIdentity id false (← chargedOnce)).toOption
  let (l, _) ← (reserveAcquisition (requestsOf "a" 7) 0 l).toOption
  return l

/-- The seven requests are lost when digest 2 proves to be `t` as well. -/
theorem merge_loses_debt :
    ∃ l l', chargedAgain = some l ∧
      (finlabMerge 3 "t" [2]).mergeIdentity id false l = .ok (l', "t".toList) ∧
      l.used "a".toList (.day 0) = 12 ∧ l.owed (·.requests) "a".toList (.day 0) = 7 ∧
      l'.used "t".toList (.day 0) = 5 ∧
      ¬ (finlabMerge 3 "t" [2]).Conserves id l l' "t".toList := by
  refine ⟨_, _, rfl, rfl, by decide, by decide, by decide, fun h => ?_⟩
  exact absurd (h.requests (.day 0)) (by decide)

/-- The first merge of a name carries its debt over. -/
theorem merge_conserves_debt_first :
    ∃ l l', chargedOnce = some l ∧
      (finlabMerge 3 "t" [1]).mergeIdentity id false l = .ok (l', "t".toList) ∧
      l'.used "t".toList (.day 0) = 5 ∧
      (finlabMerge 3 "t" [1]).Conserves id l l' "t".toList := by
  refine ⟨_, _, rfl, rfl, by decide, ?_⟩
  refine (merge_conserves_debt_iff _ id (fun as => List.Perm.refl as) false _ _ _ rfl).1 ?_
  exact fun a _ haudit => absurd rfl haudit

end FinDB.Fetcher
