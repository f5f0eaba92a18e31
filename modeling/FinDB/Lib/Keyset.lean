import Mathlib.Data.List.Sort
import Mathlib.Data.List.Perm.Subperm

/-! # Keyset pagination

A page holds the first rows behind the last key of the page before it. When keys
are distinct, following the keys over tables that may change in between returns
every row that is there all the time exactly once, and in order. -/
namespace FinDB.Lib

/-! ## One page -/

section Page
variable {ρ κ : Type} [LinearOrder κ] (key : ρ → κ)

/-- `ORDER BY key LIMIT limit`. -/
def orderLimit (rows : List ρ) (limit : Nat) : List ρ :=
  (rows.insertionSort fun a b => key a ≤ key b).take limit

/-- One row more than a page was fetched: the page, and the row the next one starts
behind when there is one. -/
def cut (pageSize : Nat) (rows : List ρ) : List ρ × Option ρ :=
  if pageSize < rows.length then (rows.take pageSize, rows[pageSize - 1]?) else (rows, none)

/-- The row lies behind the last key. -/
def Behind (last : Option κ) (r : ρ) : Prop := ∀ k ∈ last, k < key r

/-- What a page of a table holds. -/
structure IsPage (rows : List ρ) (last : Option κ) (pageSize : Nat) (data : List ρ)
    (row : Option ρ) : Prop where
  ordered : data.Pairwise fun a b => key a < key b
  sound : ∀ r ∈ data, r ∈ rows ∧ Behind key last r
  whole : row = none → ∀ r ∈ rows, Behind key last r → r ∈ data
  mem : ∀ r ∈ row, r ∈ data ∧ data.length = pageSize ∧ ∀ x ∈ data, key x ≤ key r
  upTo : ∀ r ∈ row, ∀ x ∈ rows, Behind key last x → key x ≤ key r → x ∈ data

variable {key} {rows selected : List ρ} {last : Option κ} {pageSize : Nat}

theorem insertionSort_lt (h : (rows.map key).Nodup) :
    (rows.insertionSort fun a b => key a ≤ key b).Pairwise fun a b => key a < key b := by
  have hperm := List.perm_insertionSort (fun a b => key a ≤ key b) rows
  have hle : (rows.insertionSort fun a b => key a ≤ key b).Pairwise fun a b => key a ≤ key b :=
    List.pairwise_insertionSort _ rows
  have hne : (rows.insertionSort fun a b => key a ≤ key b).Pairwise fun a b => key a ≠ key b := by
    have hnodup := (hperm.map key).nodup_iff.mpr h
    exact List.pairwise_map.mp hnodup
  exact (hle.and hne).imp fun h => lt_of_le_of_ne h.1 h.2

theorem isPage_cut (hsize : 1 ≤ pageSize) (hkeys : (selected.map key).Nodup)
    (hsel : ∀ r, r ∈ selected ↔ r ∈ rows ∧ Behind key last r) :
    IsPage key rows last pageSize (cut pageSize (orderLimit key selected (pageSize + 1))).1
      (cut pageSize (orderLimit key selected (pageSize + 1))).2 := by
  have hsorted := insertionSort_lt hkeys
  have hmem : ∀ r, r ∈ selected.insertionSort (fun a b => key a ≤ key b) ↔
      r ∈ rows ∧ Behind key last r := fun r => by rw [List.mem_insertionSort, hsel]
  unfold orderLimit
  revert hsorted hmem
  generalize selected.insertionSort (fun a b => key a ≤ key b) = sorted
  intro hsorted hmem
  unfold cut
  by_cases hlen : pageSize < sorted.length
  · have htake : pageSize < (sorted.take (pageSize + 1)).length := by
      rw [List.length_take]
      omega
    have hprefix : (sorted.take (pageSize + 1)).take pageSize = sorted.take pageSize := by
      rw [List.take_take, min_eq_left (Nat.le_succ _)]
    have hlast : (sorted.take (pageSize + 1))[pageSize - 1]? = sorted[pageSize - 1]? := by
      rw [List.getElem?_take_of_lt (by omega)]
    rw [if_pos htake, hprefix, hlast]
    have hlt : pageSize - 1 < sorted.length := by omega
    have hget : sorted[pageSize - 1]? = some sorted[pageSize - 1] :=
      List.getElem?_eq_getElem hlt
    -- the last row of the page bounds it, and everything after it lies above
    have hsplit := List.pairwise_append.mp ((List.take_append_drop pageSize sorted).symm ▸ hsorted)
    have hin : sorted[pageSize - 1] ∈ sorted.take pageSize := by
      rw [List.mem_take_iff_getElem]
      exact ⟨pageSize - 1, by omega, rfl⟩
    refine ⟨hsplit.1, fun r hr => (hmem r).mp (List.mem_of_mem_take hr), fun hnone => ?_,
      fun r hr => ?_, fun r hr x hx hbehind hle => ?_⟩
    · rw [hget] at hnone
      cases hnone
    · rw [hget] at hr
      cases hr
      refine ⟨hin, by rw [List.length_take]; omega, fun x hx => ?_⟩
      obtain ⟨i, hi, rfl⟩ := List.mem_take_iff_getElem.mp hx
      rcases Nat.lt_or_ge i (pageSize - 1) with hlt | hge
      · exact le_of_lt (List.pairwise_iff_getElem.mp hsorted i (pageSize - 1) (by omega) (by omega) hlt)
      · have heq : i = pageSize - 1 := by omega
        subst heq
        exact le_refl _
    · rw [hget] at hr
      cases hr
      have hxs := (hmem x).mpr ⟨hx, hbehind⟩
      rw [← List.take_append_drop pageSize sorted] at hxs
      rcases List.mem_append.mp hxs with htaken | hdropped
      · exact htaken
      · exact absurd hle (not_le.mpr (hsplit.2.2 _ hin _ hdropped))
  · have htake : ¬ pageSize < (sorted.take (pageSize + 1)).length := by
      rw [List.length_take]
      omega
    have hall : sorted.take (pageSize + 1) = sorted := List.take_of_length_le (by omega)
    rw [if_neg htake, hall]
    exact ⟨hsorted, fun r hr => (hmem r).mp hr, fun _ r hr hb => (hmem r).mpr ⟨hr, hb⟩,
      (fun r hr => by cases hr), fun r hr => by cases hr⟩

end Page

/-! ## Following the cursors -/

/-- Pages fetched one after the other, each from the database of its turn, until a
page has no next cursor or the turns are over. -/
def follow {δ γ π ε : Type} (fetch : δ → Option γ → Except ε π) (next : π → Option γ) :
    List δ → Option γ → Except ε (List π × Option γ)
  | [], cursor => .ok ([], cursor)
  | d :: ds, cursor => do
    let page ← fetch d cursor
    match next page with
    | none => return ([page], none)
    | some cursor => do
      let (pages, rest) ← follow fetch next ds (some cursor)
      return (page :: pages, rest)

section Walk
variable {δ γ π ε ρ κ : Type} [LinearOrder κ] {key : ρ → κ} {fetch : δ → Option γ → Except ε π}
  {next : π → Option γ} {data : π → List ρ} {rows : δ → List ρ} {pageSize : Nat}
  {holds : δ → Option γ → Option κ → Prop}

/-- A service that answers the cursors it names with the pages they stand for.
`holds d cursor last` says that in `d` the cursor stands for the last key, `shows`
what a page shows beside its rows. -/
def Serves (key : ρ → κ) (fetch : δ → Option γ → Except ε π) (next : π → Option γ)
    (data : π → List ρ) (shows : π → Prop) (rows : δ → List ρ) (pageSize : Nat)
    (holds : δ → Option γ → Option κ → Prop) (admits : δ → Prop) : Prop :=
  ∀ d cursor last, holds d cursor last → ∃ page row, fetch d cursor = .ok page ∧ shows page ∧
    IsPage key (rows d) last pageSize (data page) row ∧
    ((next page = none ∧ row = none) ∨ ∃ c r, next page = some c ∧ row = some r ∧
      ∀ d', admits d' → holds d' (some c) (some (key r)))

/-- What the rows of some pages in a row are. -/
structure Walked (key : ρ → κ) (rows : δ → List ρ) (pageSize : Nat) (ds : List δ)
    (last : Option κ) (out : List ρ) (rest : Option γ) : Prop where
  ordered : out.Pairwise fun a b => key a < key b
  sound : ∀ r ∈ out, Behind key last r ∧ ∃ d ∈ ds, r ∈ rows d
  complete : rest = none → ∀ r, Behind key last r → (∀ d ∈ ds, r ∈ rows d) → r ∈ out
  full : rest ≠ none → out.length = pageSize * ds.length

theorem Serves.follow {shows : π → Prop} {admits : δ → Prop}
    (h : Serves key fetch next data shows rows pageSize holds admits) :
    ∀ (ds : List δ) (cursor : Option γ) (last : Option κ), (∀ d ∈ ds.tail, admits d) →
      (∀ d ∈ ds.head?, holds d cursor last) → (ds = [] → cursor ≠ none) →
      ∃ pages rest, follow fetch next ds cursor = .ok (pages, rest) ∧ (∀ page ∈ pages, shows page) ∧
        Walked key rows pageSize ds last (pages.flatMap data) rest := by
  intro ds
  induction ds with
  | nil =>
    intro cursor last _ _ hcursor
    exact ⟨[], cursor, rfl, by simp, .nil, by simp, fun hnone => absurd hnone (hcursor rfl), fun _ => rfl⟩
  | cons d ds ih =>
    intro cursor last hadmits hholds _
    obtain ⟨page, row, hfetch, hshows, hpage, ⟨hnext, rfl⟩ | ⟨c, r, hnext, rfl, hholds'⟩⟩ :=
      h d cursor last (hholds d rfl)
    · refine ⟨[page], none, ?_, by simpa using hshows, ?_⟩
      · unfold Lib.follow
        rw [hfetch]
        change (match next page with | none => _ | some _ => _) = _
        rw [hnext]
        rfl
      · rw [List.flatMap_cons, List.flatMap_nil, List.append_nil]
        exact ⟨hpage.ordered, fun r hr => ⟨(hpage.sound r hr).2, d, List.mem_cons_self, (hpage.sound r hr).1⟩,
          fun _ r hb hall => hpage.whole rfl r (hall d List.mem_cons_self) hb,
          fun hne => absurd rfl hne⟩
    · obtain ⟨hr, hlen, hmax⟩ := hpage.mem r rfl
      obtain ⟨pages, rest, hrest, hpages, hwalk⟩ := ih (some c) (some (key r))
        (fun d' hd' => hadmits d' (List.mem_of_mem_tail hd'))
        (fun d' hd' => hholds' d' (hadmits d' (List.mem_of_mem_head? hd'))) (fun _ => by simp)
      refine ⟨page :: pages, rest, ?_, List.forall_mem_cons.mpr ⟨hshows, hpages⟩, ?_⟩
      · unfold Lib.follow
        rw [hfetch]
        change (match next page with | none => _ | some _ => _) = _
        rw [hnext]
        change (Lib.follow fetch next ds (some c) >>= fun p => .ok (page :: p.1, p.2)) = _
        rw [hrest]
        rfl
      · have hrow : Behind key last r := (hpage.sound r hr).2
        have hlater : ∀ x ∈ pages.flatMap data, key r < key x := fun x hx =>
          (hwalk.sound x hx).1 (key r) rfl
        rw [List.flatMap_cons]
        refine ⟨List.pairwise_append.mpr ⟨hpage.ordered, hwalk.ordered, fun x hx y hy =>
            lt_of_le_of_lt (hmax x hx) (hlater y hy)⟩, fun x hx => ?_, fun hnone x hb hall => ?_,
          fun hne => ?_⟩
        · rcases List.mem_append.mp hx with hx | hx
          · exact ⟨(hpage.sound x hx).2, d, List.mem_cons_self, (hpage.sound x hx).1⟩
          · obtain ⟨_, d', hd', hmem⟩ := hwalk.sound x hx
            exact ⟨fun k hk => lt_trans (hrow k hk) (hlater x hx), d', List.mem_cons_of_mem _ hd', hmem⟩
        · rw [List.mem_append]
          rcases le_or_gt (key x) (key r) with hle | hgt
          · exact Or.inl (hpage.upTo r rfl x (hall d List.mem_cons_self) hb hle)
          · refine Or.inr (hwalk.complete hnone x (fun k hk => ?_) fun d' hd' =>
              hall d' (List.mem_cons_of_mem _ hd'))
            cases hk
            exact hgt
        · rw [List.length_append, hlen, hwalk.full hne, List.length_cons, Nat.mul_add_one,
            Nat.add_comm]

theorem Walked.nodup {ds : List δ} {last : Option κ} {out : List ρ} {rest : Option γ}
    (h : Walked key rows pageSize ds last out rest) : out.Nodup :=
  h.ordered.imp fun hlt he => absurd (congrArg key he) (ne_of_lt hlt)

/-- There are no more turns than rows. -/
theorem Walked.ends {ds : List δ} {last : Option κ} {out all : List ρ} {rest : Option γ}
    (h : Walked key rows pageSize ds last out rest) (hsize : 1 ≤ pageSize)
    (hall : ∀ d ∈ ds, ∀ r ∈ rows d, r ∈ all) (hturns : all.length < ds.length) : rest = none := by
  by_contra hne
  have hsub : out ⊆ all := fun r hr =>
    let ⟨_, d, hd, hmem⟩ := h.sound r hr
    hall d hd r hmem
  have hlen := (List.subperm_of_subset h.nodup hsub).length_le
  have hmul := Nat.mul_le_mul_right ds.length hsize
  rw [h.full hne] at hlen
  omega

end Walk

/-! ## What a caller gets -/

/-- Following the cursors from a first page over `d`, while rows are inserted. -/
structure Paginates {δ γ π ε ρ : Type} (fetch : δ → Option γ → Except ε π) (next : π → Option γ)
    (data : π → List ρ) (shows : π → Prop) (before : ρ → ρ → Prop) (grows : δ → δ → Prop)
    (inScope : δ → ρ → Prop) (d : δ) : Prop where
  /-- No page is refused, whatever is inserted before its turn. Rows come in order,
  and those in scope all the time come once the pages have ended, which they do when
  the turns are more than the rows. -/
  growing : ∀ ds, (∀ t ∈ ds, grows d t) → ∃ pages rest,
    follow fetch next (d :: ds) none = .ok (pages, rest) ∧ (∀ page ∈ pages, shows page) ∧
    (pages.flatMap data).Pairwise before ∧
    (∀ r ∈ pages.flatMap data, ∃ t ∈ d :: ds, inScope t r) ∧
    (rest = none → ∀ r, (∀ t ∈ d :: ds, inScope t r) → r ∈ pages.flatMap data) ∧
    ∀ all : List ρ, (∀ t ∈ d :: ds, ∀ r, inScope t r → r ∈ all) → all.length ≤ ds.length →
      rest = none
  /-- Over an unchanged database the pages end, and are the scope in order. -/
  unchanged : ∃ turns pages, follow fetch next (List.replicate turns d) none = .ok (pages, none) ∧
    (pages.flatMap data).Pairwise before ∧ ∀ r, r ∈ pages.flatMap data ↔ inScope d r

theorem Serves.paginates {δ γ π ε ρ κ : Type} [LinearOrder κ] {key : ρ → κ}
    {fetch : δ → Option γ → Except ε π} {next : π → Option γ} {data : π → List ρ}
    {shows : π → Prop} {rows : δ → List ρ} {pageSize : Nat} {holds : δ → Option γ → Option κ → Prop}
    {before : ρ → ρ → Prop} {grows : δ → δ → Prop} {inScope : δ → ρ → Prop} {d : δ}
    (h : Serves key fetch next data shows rows pageSize holds (grows d)) (hsize : 1 ≤ pageSize)
    (hfirst : holds d none none) (hrefl : grows d d)
    (hscope : ∀ t, grows d t → ∀ r, r ∈ rows t ↔ inScope t r)
    (hbefore : ∀ a b, key a < key b → before a b) :
    Paginates fetch next data shows before grows inScope d := by
  have hwalks : ∀ ds, (∀ t ∈ ds, grows d t) → ∃ pages rest,
      Lib.follow fetch next (d :: ds) none = .ok (pages, rest) ∧ (∀ page ∈ pages, shows page) ∧
      Walked key rows pageSize (d :: ds) none (pages.flatMap data) rest := fun ds hds =>
    h.follow (d :: ds) none none hds (fun d' hd' => by cases hd'; exact hfirst) fun he => by cases he
  have hgrows : ∀ ds, (∀ t ∈ ds, grows d t) → ∀ t ∈ d :: ds, grows d t := fun ds hds t ht =>
    (List.mem_cons.mp ht).elim (fun he => he ▸ hrefl) (hds t)
  refine ⟨fun ds hds => ?_, ?_⟩
  · obtain ⟨pages, rest, hfollow, hshows, hwalk⟩ := hwalks ds hds
    refine ⟨pages, rest, hfollow, hshows, hwalk.ordered.imp fun hlt => hbefore _ _ hlt, fun r hr => ?_,
      fun hnone r hr => ?_, fun all hall hlen => ?_⟩
    · obtain ⟨_, t, ht, hmem⟩ := hwalk.sound r hr
      exact ⟨t, ht, (hscope t (hgrows ds hds t ht) r).mp hmem⟩
    · exact hwalk.complete hnone r (fun _ hk => by cases hk) fun t ht =>
        (hscope t (hgrows ds hds t ht) r).mpr (hr t ht)
    · exact hwalk.ends hsize (fun t ht r hr => hall t ht r ((hscope t (hgrows ds hds t ht) r).mp hr))
        (Nat.lt_succ_of_le hlen)
  · have hds : ∀ t ∈ List.replicate (rows d).length d, grows d t := fun t ht => by
      rw [List.eq_of_mem_replicate ht]
      exact hrefl
    have hsame : ∀ t ∈ d :: List.replicate (rows d).length d, t = d := fun t ht =>
      (List.mem_cons.mp ht).elim id List.eq_of_mem_replicate
    obtain ⟨pages, rest, hfollow, _, hwalk⟩ := hwalks (List.replicate (rows d).length d) hds
    have hnone : rest = none := hwalk.ends hsize
      (fun t ht r hr => hsame t ht ▸ hr) (by simp)
    subst hnone
    refine ⟨(rows d).length + 1, pages, hfollow, hwalk.ordered.imp fun hlt => hbefore _ _ hlt,
      fun r => ⟨fun hr => ?_, fun hr => ?_⟩⟩
    · obtain ⟨_, t, ht, hmem⟩ := hwalk.sound r hr
      rw [hsame t ht] at hmem
      exact (hscope d hrefl r).mp hmem
    · refine hwalk.complete rfl r (fun _ hk => by cases hk) fun t ht => ?_
      rw [hsame t ht]
      exact (hscope d hrefl r).mpr hr

end FinDB.Lib
