import FinDB.ProviderWork.RefinementApply

/-! # Invariants of runs

What the environment and every transition keep holds in every reachable state.
A run is strict when no generic settlement gives a historical work up before its
item has ended. -/
namespace FinDB.ProviderWork
open FinDB.Lib Relation

variable {cfg : Config} {mode : Mode} {s t : Db}

theorem transs_inv {I : Db → Prop} (ht : ∀ s t, Trans cfg mode s t → I s → I t)
    (h : Transs cfg mode s t) (hs : I s) : I t := by
  induction h with
  | refl => exact hs
  | tail _ hst ih => exact ht _ _ hst ih

theorem transs_rel {I : Db → Prop} {R : Db → Db → Prop} (hr : ∀ s, R s s)
    (htrans : ∀ s t u, R s t → R t u → R s u) (hI : ∀ s t, Trans cfg mode s t → I s → I t)
    (ht : ∀ s t, Trans cfg mode s t → I s → R s t) (h : Transs cfg mode s t) (hs : I s) :
    R s t := by
  induction h with
  | refl => exact hr s
  | tail hsu hut ih => exact htrans _ _ _ ih (ht _ _ hut (transs_inv hI hsu hs))

theorem env_requestsEnded (h : Env s t) (hs : RequestsEnded s) : RequestsEnded t := by
  refine ⟨?_, ?_⟩
  · rw [h.items, h.requests]; exact hs.parent
  · rw [h.items, h.requests]; exact hs.ended

theorem apply_requestsEnded (op : Op) (hs : RequestsEnded s) : RequestsEnded (apply cfg op s) := by
  obtain ⟨m, henv, htrans⟩ := @apply_refines cfg .free s op hs False.elim (fun _ => trivial) fun _ => trivial
  exact transs_requestsEnded htrans (env_requestsEnded henv hs)

theorem requestsEnded_init (registry : Registry) : RequestsEnded (Db.init registry) :=
  ⟨fun i hi => absurd hi (Table.not_mem_empty i), fun q hq => absurd hq (Table.not_mem_empty q)⟩

theorem Reachable.requestsEnded (h : Reachable cfg s) : RequestsEnded s :=
  h.inv requestsEnded_init fun _ op hs => apply_requestsEnded op hs

/-- The invariant rule over transitions. -/
theorem Reachable.transInv {I : Db → Prop} (h0 : ∀ registry, I (Db.init registry))
    (henv : ∀ s t, Env s t → I s → I t) (ht : ∀ s t, Trans cfg .free s t → I s → I t)
    (h : Reachable cfg s) : I s := by
  have hboth : RequestsEnded s ∧ I s := by
    refine h.inv (I := fun u => RequestsEnded u ∧ I u)
      (fun registry => ⟨requestsEnded_init registry, h0 registry⟩) fun u op hu => ?_
    obtain ⟨m, hm, htrans⟩ := @apply_refines cfg .free u op hu.1 False.elim (fun _ => trivial)
      fun _ => trivial
    exact ⟨apply_requestsEnded op hu.1, transs_inv ht htrans (henv _ _ hm hu.2)⟩
  exact hboth.2

/-- A relation that the environment and every transition from an invariant state
respect holds along every run. -/
theorem Steps.transRel {I : Db → Prop} {R : Db → Db → Prop} (hr : ∀ s, R s s)
    (htrans : ∀ s t u, R s t → R t u → R s u) (hIenv : ∀ s t, Env s t → I s → I t)
    (hI : ∀ s t, Trans cfg .free s t → I s → I t) (henv : ∀ s t, Env s t → R s t)
    (ht : ∀ s t, Trans cfg .free s t → I s → R s t) (h : Steps cfg s t) (hreq : RequestsEnded s)
    (hs : I s) : R s t := by
  have step : ∀ u op, RequestsEnded u ∧ I u → ∃ m, Env u m ∧ I m ∧
      Transs cfg .free m (apply cfg op u) := by
    intro u op hu
    obtain ⟨m, hm, hmt⟩ := @apply_refines cfg .free u op hu.1 False.elim (fun _ => trivial)
      fun _ => trivial
    exact ⟨m, hm, hIenv _ _ hm hu.2, hmt⟩
  refine StepsIf.rel (I := fun u => RequestsEnded u ∧ I u) hr htrans (fun u op hu _ => ?_)
    (fun u op hu _ => ?_) h ⟨hreq, hs⟩
  · obtain ⟨m, _, hm, hmt⟩ := step u op hu
    exact ⟨apply_requestsEnded op hu.1, transs_inv hI hmt hm⟩
  · obtain ⟨m, hum, hm, hmt⟩ := step u op hu
    exact htrans _ _ _ (henv _ _ hum) (transs_rel hr htrans hI ht hmt hm)

/-! ## Receipts -/

/-- No transition takes a receipt away. -/
theorem trans_receipts {r : Receipt} (h : Trans cfg mode s t) (hr : r ∈ s.receipts) :
    r ∈ t.receipts := by
  cases h with
  | receipt _ hi => exact (Table.mem_insert? hi).mpr (Or.inl hr)
  | _ => exact hr

theorem apply_receipts {r : Receipt} (op : Op) (hreq : RequestsEnded s) (hr : r ∈ s.receipts) :
    r ∈ (apply cfg op s).receipts := by
  obtain ⟨m, henv, htrans⟩ := @apply_refines cfg .free s op hreq False.elim (fun _ => trivial)
    fun _ => trivial
  refine transs_inv (I := fun u => r ∈ u.receipts) (fun _ _ => trans_receipts) htrans ?_
  rw [henv.receipts]
  exact hr

/-! ## Strict runs -/

/-- Runs in which every operation meets `Op.settlesEnded`. -/
def StrictReachable (cfg : Config) (s : Db) : Prop :=
  ∃ registry, StepsIf (apply cfg) (fun s op => op.settlesEnded cfg s) (Db.init registry) s

theorem StrictReachable.transInv {I : Db → Prop} (h0 : ∀ registry, I (Db.init registry))
    (henv : ∀ s t, Env s t → I s → I t) (ht : ∀ s t, Trans cfg .strictly s t → I s → I t)
    (h : StrictReachable cfg s) : I s := by
  obtain ⟨registry, hrun⟩ := h
  have hboth : RequestsEnded s ∧ I s := by
    refine hrun.inv (I := fun u => RequestsEnded u ∧ I u) (fun u op hu hok => ?_)
      ⟨requestsEnded_init registry, h0 registry⟩
    obtain ⟨m, hm, htrans⟩ := @apply_refines cfg .strictly u op hu.1 (fun _ => hok)
      (fun _ => trivial) fun _ => trivial
    exact ⟨apply_requestsEnded op hu.1, transs_inv ht htrans (henv _ _ hm hu.2)⟩
  exact hboth.2

end FinDB.ProviderWork
