import FinDB.Lib.Raise
import FinDB.Universe.Rows
import Mathlib.Data.List.Dedup

/-! # Rolls go forward

An automatic roll is decided by differences of sets and by comparing contract codes
as texts. The codes of one series compare as their last trading days; the two weekly
series do not. -/
namespace FinDB.Universe
open FinDB.Lib

/-! ## Contract codes -/

/-- The number in front of a code: year and month. -/
def yearMonth (month : String) : Nat := ((readNumeral 10 6 month.toList).map (·.1)).getD 0

def isFriday (month : String) : Bool := (month.toList.drop 6).head? == some 'F'

/-- Which week of the month. -/
def weekNumber (month : String) : Nat :=
  ((month.toList.drop 7).head?.map fun c => c.toNat - '0'.toNat).getD 0

/-- Monday is 0. -/
def tradingWeekday (month : String) : Nat := if isFriday month then 4 else 2

/-- The last trading day of a weekly contract, if its month has one. -/
def lastTradingDay (month : String) : Option Int :=
  nthWeekday (yearMonth month / 100) (yearMonth month % 100) (tradingWeekday month) (weekNumber month)

/-- `a` expires later than `r`: by months, or by days. -/
def Later (a r : String) : Prop :=
  if isMonthly a then yearMonth r < yearMonth a
  else ∀ x, lastTradingDay r = some x → ∀ y, lastTradingDay a = some y → x < y

theorem digitVal_of_isDigit {c : Char} (h : isDigit c = true) :
    ∃ d < 10, digitVal c = some d := by
  have hc : '0' ≤ c ∧ c ≤ '9' := of_decide_eq_true h
  have hn : c.toNat ≤ '9'.toNat := hc.2
  refine ⟨c.toNat - '0'.toNat, ?_, by rw [digitVal, if_pos hc]⟩
  have h9 : '9'.toNat = 57 := rfl
  have h0 : '0'.toNat = 48 := rfl
  omega

theorem readDigits_of_isDigit {cs : List Char} (h : cs.all isDigit = true) (k : Nat) :
    ∃ n, readDigits 10 cs k = some n := by
  induction cs generalizing k with
  | nil => exact ⟨k, rfl⟩
  | cons c cs ih =>
    rw [List.all_cons, Bool.and_eq_true] at h
    obtain ⟨d, hd, hval⟩ := digitVal_of_isDigit h.1
    obtain ⟨n, hn⟩ := ih h.2 (10 * k + d)
    refine ⟨n, ?_⟩
    rw [readDigits, List.foldlM_cons, readDigit, hval, Option.bind_some, if_pos hd]
    exact hn

/-- A code is six digits, then the week. -/
theorem code_text {month : String} (h : monthMatches month = true) :
    month.toList = numeral 10 6 (yearMonth month) ++ month.toList.drop 6 ∧
      yearMonth month < 10 ^ 6 := by
  simp only [monthMatches, Bool.and_eq_true, decide_eq_true_eq] at h
  obtain ⟨⟨hlen, hdigits⟩, -⟩ := h
  obtain ⟨n, hn⟩ := readDigits_of_isDigit hdigits 0
  have hread : yearMonth month = n := by
    unfold yearMonth readNumeral
    rw [if_pos hlen, hn]
    rfl
  obtain ⟨htext, hlt⟩ := numeral_of_readDigits hn
  rw [List.length_take, Nat.min_eq_left hlen] at htext hlt
  rw [hread, ← htext, List.take_append_drop]
  exact ⟨rfl, hlt⟩

theorem code_lt_iff {a r : String} (ha : monthMatches a = true) (hr : monthMatches r = true) :
    r < a ↔ yearMonth r < yearMonth a ∨
      yearMonth r = yearMonth a ∧ r.toList.drop 6 < a.toList.drop 6 := by
  obtain ⟨hta, hla⟩ := code_text ha
  obtain ⟨htr, hlr⟩ := code_text hr
  rw [String.lt_iff_toList_lt, htr, hta, field_lt_iff hlr hla]
  simp

theorem isMonthly_iff {month : String} (h : monthMatches month = true) :
    isMonthly month = true ↔ month.toList.drop 6 = [] := by
  have hlen := congrArg List.length (code_text h).1
  rw [List.length_append, length_numeral] at hlen
  rw [isMonthly, beq_iff_eq, String.length, ← List.length_eq_zero_iff]
  omega

/-- The week of a code that has one. -/
theorem week_text {month : String} (h : monthMatches month = true) (hw : isMonthly month = false) :
    ∃ n, 1 ≤ n ∧ n ≤ 5 ∧ month.toList.drop 6 =
      [if isFriday month then 'F' else 'W', Nat.digitChar n] ∧ weekNumber month = n := by
  have hne : ¬ month.toList.drop 6 = [] := fun he => by
    rw [(isMonthly_iff h).mpr he] at hw
    cases hw
  simp only [monthMatches, Bool.and_eq_true, Bool.or_eq_true, List.isEmpty_iff] at h
  have hweek := h.2.resolve_left hne
  have hdrop : month.toList.drop 7 = (month.toList.drop 6).drop 1 := by rw [List.drop_drop]
  unfold isFriday weekNumber
  rw [hdrop]
  generalize month.toList.drop 6 = cs at hweek
  match cs, hweek with
  | [letter, n], hweek =>
    simp only [isWeek, Bool.and_eq_true, Bool.or_eq_true, beq_iff_eq, decide_eq_true_eq] at hweek
    obtain ⟨hletter, h1, h5⟩ := hweek
    have h1 : '1'.toNat ≤ n.toNat := h1
    have h5 : n.toNat ≤ '5'.toNat := h5
    have hdigit : ∀ k, '1'.toNat ≤ k → k ≤ '5'.toNat → Char.ofNat k = (k - '0'.toNat).digitChar := by
      decide
    have h0 : '0'.toNat = 48 := rfl
    have h1' : '1'.toNat = 49 := rfl
    have h5' : '5'.toNat = 53 := rfl
    refine ⟨n.toNat - '0'.toNat, by omega, by omega, ?_, rfl⟩
    rw [← hdigit n.toNat h1 h5, Char.ofNat_toNat]
    rcases hletter with rfl | rfl <;> rfl

/-! ## Codes and last trading days -/

section
variable {a r : String} (ha : monthMatches a = true) (hr : monthMatches r = true)
include ha hr

/-- Weekly codes: by month, then `F` before `W`, then by week. -/
theorem weekly_lt_iff (hwa : isMonthly a = false) (hwr : isMonthly r = false) :
    r < a ↔ yearMonth r < yearMonth a ∨ yearMonth r = yearMonth a ∧
      (isFriday r = true ∧ isFriday a = false ∨
        isFriday r = isFriday a ∧ weekNumber r < weekNumber a) := by
  obtain ⟨n, -, hn, htext, rfl⟩ := week_text ha hwa
  obtain ⟨m, -, hm, htext', rfl⟩ := week_text hr hwr
  rw [code_lt_iff ha hr, htext, htext']
  have hdigit := digitChar_lt_iff (show weekNumber r < 10 by omega) (show weekNumber a < 10 by omega)
  have hFW : 'F' < 'W' := by decide
  have hWF : ¬ 'W' < 'F' := by decide
  cases isFriday r <;> cases isFriday a <;>
    simp [List.cons_lt_cons_iff, hdigit, hFW, hWF]

theorem monthly_lt_iff (hma : isMonthly a = true) (hmr : isMonthly r = true) :
    r < a ↔ yearMonth r < yearMonth a := by
  rw [code_lt_iff ha hr, (isMonthly_iff ha).mp hma, (isMonthly_iff hr).mp hmr]
  simp

end

/-- The first Friday of the month comes before its first Wednesday. -/
def FridayFirst (yearMonth : Nat) : Prop :=
  firstWeekday (yearMonth / 100) (yearMonth % 100) 4 < firstWeekday (yearMonth / 100) (yearMonth % 100) 2

instance (yearMonth : Nat) : Decidable (FridayFirst yearMonth) := inferInstanceAs (Decidable (_ < _))

/-- A Friday week that `a`, a Wednesday week of the same month, replaces ends before it. -/
def FridayEnds (a r : String) : Prop :=
  yearMonth r = yearMonth a → isFriday r = true → isFriday a = false →
    (lastTradingDay r).isSome → (lastTradingDay a).isSome →
    weekNumber r < weekNumber a ∨ weekNumber r = weekNumber a ∧ FridayFirst (yearMonth a)

instance (a r : String) : Decidable (FridayEnds a r) :=
  inferInstanceAs (Decidable (_ → _ → _ → _ → _ → _))

/-- A greater code expires later, but for a Friday week and a Wednesday week of one month. -/
theorem later_weekly_iff {a r : String} (ha : monthMatches a = true) (hr : monthMatches r = true)
    (hwa : isMonthly a = false) (hwr : isMonthly r = false) (hlt : r < a) :
    Later a r ↔ FridayEnds a r := by
  obtain ⟨-, hpos, -, -, rfl⟩ := week_text ha hwa
  obtain ⟨-, hpos', -, -, rfl⟩ := week_text hr hwr
  have hday (c : String) (d : Int) := @nthWeekday_eq_some (yearMonth c / 100) (yearMonth c % 100)
    (tradingWeekday c) (weekNumber c) d
  have hbounds (c : String) (k : Nat) := firstWeekday_bounds (yearMonth c / 100) (yearMonth c % 100) k
  unfold Later FridayEnds
  rw [hwa, if_neg Bool.false_ne_true]
  rcases (weekly_lt_iff ha hr hwa hwr).mp hlt with hmonth | ⟨hmonth, hweek⟩
  · -- the month of `r` is over before the month of `a` starts
    refine iff_of_true (fun x hx y hy => ?_) fun he => absurd he (Nat.ne_of_lt hmonth)
    obtain ⟨⟨_, hmr, hend⟩, -⟩ := (hday r x).mp hx
    obtain ⟨⟨_, hma, -⟩, hy⟩ := (hday a y).mp hy
    have hstart := @monthStart_le (yearMonth r / 100) _ (yearMonth a / 100) _ hmr hma.1 (by omega)
    have hfirst := hbounds a (tradingWeekday a)
    omega
  · have hyear : yearMonth r / 100 = yearMonth a / 100 := by rw [hmonth]
    rcases hweek with ⟨hfriday, hwednesday⟩ | ⟨hseries, hnumber⟩
    · have hF := hbounds a 4
      have hW := hbounds a 2
      have hrday (x : Int) := hday r x
      have haday (y : Int) := hday a y
      simp only [tradingWeekday, hfriday, hwednesday, if_true, Bool.false_eq_true, if_false,
        hmonth] at hrday haday
      constructor
      · intro hall _ _ _ hsr hsa
        obtain ⟨x, hx⟩ := Option.isSome_iff_exists.mp hsr
        obtain ⟨y, hy⟩ := Option.isSome_iff_exists.mp hsa
        have hxy := hall x hx y hy
        have hx := ((hrday x).mp (by simpa [lastTradingDay, tradingWeekday, hfriday, hmonth] using hx)).2
        have hy := ((haday y).mp (by simpa [lastTradingDay, tradingWeekday, hwednesday] using hy)).2
        unfold FridayFirst
        omega
      · intro hends x hx y hy
        have hnumber := hends hmonth hfriday hwednesday (Option.isSome_of_eq_some hx)
          (Option.isSome_of_eq_some hy)
        have hx := ((hrday x).mp (by simpa [lastTradingDay, tradingWeekday, hfriday, hmonth] using hx)).2
        have hy := ((haday y).mp (by simpa [lastTradingDay, tradingWeekday, hwednesday] using hy)).2
        unfold FridayFirst at hnumber
        omega
    · refine iff_of_true (fun x hx y hy => ?_) fun _ hf hw => ?_
      · have hx := ((hday r x).mp hx).2
        have hy := ((hday a y).mp hy).2
        unfold tradingWeekday at hx hy
        rw [hseries, hmonth] at hx
        omega
      · rw [hseries, hw] at hf
        cases hf

theorem later_monthly_iff {a r : String} (ha : monthMatches a = true) (hr : monthMatches r = true)
    (hma : isMonthly a = true) (hmr : isMonthly r = true) : Later a r ↔ r < a := by
  unfold Later
  rw [hma, if_pos rfl, monthly_lt_iff ha hr hma hmr]

/-! ## Universes -/

/-- A member of one of the five products, with a code and a session. -/
structure Contract (upper : String → String) (m : Member) (id : ContractIdentity) : Prop where
  product : m.productCode = some id.product ∧ id.product ∈ products
  month : m.contractMonth = some id.month ∧ monthMatches id.month = true
  session : m.session = some id.session ∧ id.session ∈ sessions
  names : m.symbol = id.product ∧ m.providerSymbol = id.product ++ ":" ++ id.month ∧
    m.contractCode = some (id.product ++ ":" ++ id.month)
  exchange : upper m.exchange = "TAIFEX" ∨ upper m.exchange = "XTAF"
  terms : m.currency = "TWD" ∧ m.assetClass = "future" ∧ m.mappingStatus = "mapped" ∧
    m.classification = some (classOf id.month)

/-- The contract is among the members. -/
def Lists (members : List Member) (product month : String) : Prop :=
  ∃ m ∈ members, m.productCode = some product ∧ m.contractMonth = some month

def ListsSession (members : List Member) (product month session : String) : Prop :=
  ∃ m ∈ members, m.productCode = some product ∧ m.contractMonth = some month ∧
    m.session = some session

/-- The contract is new; read backwards, it is removed. -/
def Added (previous current : List Member) (product month : String) : Prop :=
  Lists current product month ∧ ¬ Lists previous product month

/-- What an automatic roll is to do. -/
structure ForwardOnly (upper : String → String) (previous current : List Member)
    (effective : CivilDate) : Prop where
  wellFormed : ∀ m, m ∈ previous ∨ m ∈ current → ∃ id, Contract upper m id
  sameProducts : ∀ product,
    (∃ m ∈ previous, m.productCode = some product) ↔ ∃ m ∈ current, m.productCode = some product
  keepsSessions : ∀ product month session, Lists current product month →
    ListsSession previous product month session → ListsSession current product month session
  oneAdded : ∀ product a a', Added previous current product a → Added previous current product a' →
    isMonthly a = isMonthly a' → a = a'
  oneRemoved : ∀ product r r', Added current previous product r → Added current previous product r' →
    isMonthly r = isMonthly r' → r = r'
  notBefore : ∀ product month, Lists current product month →
    effective.year * 100 + effective.month ≤ yearMonth month
  forward : ∀ product a r, Added previous current product a → Added current previous product r →
    isMonthly a = isMonthly r → Later a r

variable {upper : String → String} {previous current : List Member} {effective : CivilDate}

theorem contractIdentity_eq_some {m : Member} {id : ContractIdentity} :
    contractIdentity upper m = some id ↔ Contract upper m id := by
  unfold contractIdentity
  constructor
  · intro h
    split at h
    · rename_i product month session hp hm hs
      split at h
      · cases h
      split at h
      · cases h
      rename_i hknown hterms
      cases h
      simp only [Bool.or_eq_true, Bool.not_eq_true', not_or, Bool.not_eq_false, bne_iff_ne, ne_eq,
        not_not, List.contains_iff_mem] at hknown hterms
      obtain ⟨⟨hproduct, hmonth⟩, hsession⟩ := hknown
      obtain ⟨⟨⟨⟨⟨⟨⟨hsym, hprov⟩, hcode⟩, hex⟩, hcur⟩, hasset⟩, hmap⟩, hclass⟩ := hterms
      exact ⟨⟨hp, hproduct⟩, ⟨hm, hmonth⟩, ⟨hs, hsession⟩, ⟨hsym, hprov, hcode⟩, by simpa using hex,
        ⟨hcur, hasset, hmap, hclass⟩⟩
    · cases h
  · intro h
    simp only [h.product.1, h.month.1, h.session.1, h.names.1, h.names.2.1, h.names.2.2, h.terms.1,
      h.terms.2.1, h.terms.2.2.1, h.terms.2.2.2, h.month.2, bne_self_eq_false, Bool.false_or,
      Bool.not_true, Bool.or_false]
    have hp : products.contains id.product = true := List.contains_iff_mem.mpr h.product.2
    have hs : sessions.contains id.session = true := List.contains_iff_mem.mpr h.session.2
    have he : ["TAIFEX", "XTAF"].contains (upper m.exchange) = true := by
      rcases h.exchange with he | he <;> rw [he] <;> decide
    rw [hp, hs, he]
    rfl

/-! ## Sets of identities -/

section
variable {members : List Member} {ids : List ContractIdentity}
variable (h : members.mapM (contractIdentity upper) = some ids)
include h

theorem mem_productsOf {product : String} :
    product ∈ productsOf ids ↔ ∃ m ∈ members, m.productCode = some product := by
  obtain ⟨hforth, hback⟩ := mapM_eq_some h
  unfold productsOf
  rw [List.mem_dedup, List.mem_map]
  constructor
  · rintro ⟨id, hid, rfl⟩
    obtain ⟨m, hm, hmid⟩ := hback id hid
    exact ⟨m, hm, (contractIdentity_eq_some.mp hmid).product.1⟩
  · rintro ⟨m, hm, hp⟩
    obtain ⟨id, hid, hmid⟩ := hforth m hm
    exact ⟨id, hid, Option.some.inj ((contractIdentity_eq_some.mp hmid).product.1.symm.trans hp)⟩

theorem mem_monthsOf {product month : String} :
    month ∈ monthsOf ids product ↔ Lists members product month := by
  obtain ⟨hforth, hback⟩ := mapM_eq_some h
  unfold monthsOf
  simp only [List.mem_dedup, List.mem_map, List.mem_filter, beq_iff_eq]
  constructor
  · rintro ⟨id, ⟨hid, rfl⟩, rfl⟩
    obtain ⟨m, hm, hmid⟩ := hback id hid
    have hc := contractIdentity_eq_some.mp hmid
    exact ⟨m, hm, hc.product.1, hc.month.1⟩
  · rintro ⟨m, hm, hp, hmonth⟩
    obtain ⟨id, hid, hmid⟩ := hforth m hm
    have hc := contractIdentity_eq_some.mp hmid
    exact ⟨id, ⟨hid, Option.some.inj (hc.product.1.symm.trans hp)⟩,
      Option.some.inj (hc.month.1.symm.trans hmonth)⟩

theorem mem_sessionsOf {product month session : String} :
    session ∈ sessionsOf ids product month ↔ ListsSession members product month session := by
  obtain ⟨hforth, hback⟩ := mapM_eq_some h
  unfold sessionsOf
  simp only [List.mem_dedup, List.mem_map, List.mem_filter, Bool.and_eq_true, beq_iff_eq]
  constructor
  · rintro ⟨id, ⟨hid, rfl, rfl⟩, rfl⟩
    obtain ⟨m, hm, hmid⟩ := hback id hid
    have hc := contractIdentity_eq_some.mp hmid
    exact ⟨m, hm, hc.product.1, hc.month.1, hc.session.1⟩
  · rintro ⟨m, hm, hp, hmonth, hs⟩
    obtain ⟨id, hid, hmid⟩ := hforth m hm
    have hc := contractIdentity_eq_some.mp hmid
    exact ⟨id, ⟨hid, Option.some.inj (hc.product.1.symm.trans hp),
      Option.some.inj (hc.month.1.symm.trans hmonth)⟩, Option.some.inj (hc.session.1.symm.trans hs)⟩

/-- Every listed code matches. -/
theorem Lists.matches {product month : String} (hl : Lists members product month) :
    monthMatches month = true := by
  obtain ⟨m, hm, -, hmonth⟩ := hl
  obtain ⟨id, -, hmid⟩ := (mapM_eq_some h).1 m hm
  have hc := contractIdentity_eq_some.mp hmid
  rw [← Option.some.inj (hc.month.1.symm.trans hmonth)]
  exact hc.month.2

end
/-! ## Accepted rolls -/

theorem mem_minus {xs ys : List String} {x : String} : x ∈ minus xs ys ↔ x ∈ xs ∧ x ∉ ys := by
  simp [minus]

theorem eq_of_length_le_one {xs : List String} (h : xs.length ≤ 1) {x y : String} (hx : x ∈ xs)
    (hy : y ∈ xs) : x = y := by
  match xs, h with
  | [z], _ => rw [List.mem_singleton.mp hx, List.mem_singleton.mp hy]

/-- The least added code is greater than the greatest removed one. -/
theorem lt_of_not_notLater {added removed : List String} (h : notLater added removed = false)
    {a r : String} (ha : a ∈ added) (hr : r ∈ removed) : r < a := by
  unfold notLater at h
  cases hmin : added.min? with
  | none => exact absurd ha (by rw [List.min?_eq_none_iff.mp hmin]; exact List.not_mem_nil)
  | some least =>
    cases hmax : removed.max? with
    | none => exact absurd hr (by rw [List.max?_eq_none_iff.mp hmax]; exact List.not_mem_nil)
    | some greatest =>
      rw [hmin, hmax] at h
      have hlt : greatest < least := not_le.mp (of_decide_eq_false h)
      exact lt_of_le_of_lt ((List.max?_eq_some_iff.mp hmax).2 r hr)
        (lt_of_lt_of_le hlt ((List.min?_eq_some_iff.mp hmin).2 a ha))

/-- `strftime` writes the number of the month. -/
theorem effectiveMonth_toList (date : CivilDate) :
    (effectiveMonth date).toList = numeral 10 6 (date.year * 100 + date.month) := by
  have hmonth := date.valid.2.1.2
  have hhigh : (date.year * 100 + date.month) / 10 ^ 2 = date.year := by omega
  have hlow : numeral 10 2 (date.year * 100 + date.month) = numeral 10 2 date.month := by
    rw [Nat.add_comm, Nat.mul_comm]
    exact numeral_add_mul 2 date.month date.year
  rw [effectiveMonth, String.toList_ofList, ← numeral_append 4 2, hhigh, hlow]

theorem before_effective_iff {month : String} (h : monthMatches month = true) (date : CivilDate) :
    String.ofList (month.toList.take 6) < effectiveMonth date ↔
      yearMonth month < date.year * 100 + date.month := by
  obtain ⟨htext, hlt⟩ := code_text h
  have htake : month.toList.take 6 = numeral 10 6 (yearMonth month) := by
    rw [htext, List.take_append_of_le_length (by simp), List.take_of_length_le (by simp)]
  have hmonth := date.valid.2.1.2
  have hyear := date.valid.1.2
  rw [String.lt_iff_toList_lt, String.toList_ofList, htake, effectiveMonth_toList,
    numeral_lt_iff hlt (by omega)]

/-- What the check finds for one product. -/
structure Rolls (previous current : List Member) (effective : CivilDate) (product : String) : Prop where
  keepsSessions : ∀ month session, Lists current product month →
    ListsSession previous product month session → ListsSession current product month session
  oneAdded : ∀ a a', Added previous current product a → Added previous current product a' →
    isMonthly a = isMonthly a' → a = a'
  oneRemoved : ∀ r r', Added current previous product r → Added current previous product r' →
    isMonthly r = isMonthly r' → r = r'
  notBefore : ∀ month, Lists current product month →
    effective.year * 100 + effective.month ≤ yearMonth month
  greater : ∀ a r, Added previous current product a → Added current previous product r →
    isMonthly a = isMonthly r → r < a

theorem rolls_of_check {ids ids' : List ContractIdentity} {product : String}
    (h : previous.mapM (contractIdentity upper) = some ids)
    (h' : current.mapM (contractIdentity upper) = some ids')
    (hcheck : productRolls ids ids' (effectiveMonth effective) product = true) :
    Rolls previous current effective product := by
  unfold productRolls at hcheck
  simp only [Bool.and_eq_true, Bool.not_eq_true', decide_eq_true_eq] at hcheck
  obtain ⟨⟨⟨⟨hbefore, hsessions⟩, ham, hrm, haw, hrw⟩, hmonthly⟩, hweekly⟩ := hcheck
  have hadded (cls : String → Bool) (a : String) :
      a ∈ minus ((monthsOf ids' product).filter cls) ((monthsOf ids product).filter cls) ↔
        Added previous current product a ∧ cls a = true := by
    rw [mem_minus, List.mem_filter, List.mem_filter, mem_monthsOf h, mem_monthsOf h']
    unfold Added
    tauto
  have hremoved (cls : String → Bool) (r : String) :
      r ∈ minus ((monthsOf ids product).filter cls) ((monthsOf ids' product).filter cls) ↔
        Added current previous product r ∧ cls r = true := by
    rw [mem_minus, List.mem_filter, List.mem_filter, mem_monthsOf h, mem_monthsOf h']
    unfold Added
    tauto
  have hnot {month : String} (hm : isMonthly month = false) : (!isMonthly month) = true := by rw [hm]; rfl
  refine ⟨fun month session hl hs => ?_, fun a a' ha ha' hcls => ?_, fun r r' hr hr' hcls => ?_,
    fun month hl => ?_, fun a r ha hr hcls => ?_⟩
  · have hmem := (mem_monthsOf h).mpr (by
      obtain ⟨m, hm, hp, hmonth, -⟩ := hs
      exact ⟨m, hm, hp, hmonth⟩)
    have hall := List.any_eq_false.mp hsessions month hmem
    rw [List.contains_iff_mem.mpr ((mem_monthsOf h').mpr hl), Bool.true_and, Bool.not_eq_true',
      Bool.not_eq_false, List.all_eq_true] at hall
    exact (mem_sessionsOf h').mp (List.contains_iff_mem.mp (hall session ((mem_sessionsOf h).mpr hs)))
  · cases hm : isMonthly a with
    | true => exact eq_of_length_le_one ham ((hadded _ a).mpr ⟨ha, hm⟩) ((hadded _ a').mpr ⟨ha', hcls ▸ hm⟩)
    | false =>
      exact eq_of_length_le_one haw ((hadded (!isMonthly ·) a).mpr ⟨ha, hnot hm⟩)
        ((hadded (!isMonthly ·) a').mpr ⟨ha', hnot (hcls ▸ hm)⟩)
  · cases hm : isMonthly r with
    | true => exact eq_of_length_le_one hrm ((hremoved _ r).mpr ⟨hr, hm⟩) ((hremoved _ r').mpr ⟨hr', hcls ▸ hm⟩)
    | false =>
      exact eq_of_length_le_one hrw ((hremoved (!isMonthly ·) r).mpr ⟨hr, hnot hm⟩)
        ((hremoved (!isMonthly ·) r').mpr ⟨hr', hnot (hcls ▸ hm)⟩)
  · have hnb := List.any_eq_false.mp hbefore month ((mem_monthsOf h').mpr hl)
    rw [decide_eq_true_eq, before_effective_iff (Lists.matches h' hl)] at hnb
    omega
  · cases hm : isMonthly a with
    | true =>
      exact lt_of_not_notLater hmonthly ((hadded _ a).mpr ⟨ha, hm⟩) ((hremoved _ r).mpr ⟨hr, hcls ▸ hm⟩)
    | false =>
      exact lt_of_not_notLater hweekly ((hadded (!isMonthly ·) a).mpr ⟨ha, hnot hm⟩)
        ((hremoved (!isMonthly ·) r).mpr ⟨hr, hnot (hcls ▸ hm)⟩)

/-- An accepted roll goes forward exactly when every Friday week that a Wednesday week of the same
month replaces ends before it. -/
theorem roll_forward_iff (h : taifexDatedRollIsSafe upper previous current effective = true) :
    ForwardOnly upper previous current effective ↔
      ∀ product a r, Added previous current product a → Added current previous product r →
        isMonthly a = false → isMonthly r = false → FridayEnds a r := by
  unfold taifexDatedRollIsSafe at h
  rw [Bool.and_eq_true] at h
  obtain ⟨-, h⟩ := h
  split at h
  · rename_i ids ids' hids hids'
    simp only [Bool.and_eq_true, List.all_eq_true, sameProducts, List.contains_iff_mem] at h
    obtain ⟨⟨hsub, hsup⟩, hchecks⟩ := h
    have hrolls {product month : String} (hl : Lists current product month) :
        Rolls previous current effective product := by
      obtain ⟨m, hm, hp, -⟩ := hl
      exact rolls_of_check hids hids' (hchecks product ((mem_productsOf hids').mpr ⟨m, hm, hp⟩))
    have hmatches {product month : String} (hl : Lists current product month ∨ Lists previous product month) :
        monthMatches month = true := hl.elim (Lists.matches hids') (Lists.matches hids)
    constructor
    · intro hf product a r ha hr hma hmr
      have hlt := (hrolls ha.1).greater a r ha hr (hma.trans hmr.symm)
      exact (later_weekly_iff (hmatches (.inl ha.1)) (hmatches (.inr hr.1)) hma hmr hlt).mp
        (hf.forward product a r ha hr (hma.trans hmr.symm))
    · intro hends
      have hback {product r : String} (hr : Added current previous product r) :
          ∃ month, Lists current product month := by
        obtain ⟨m, hm, hp, -⟩ := hr.1
        obtain ⟨m', hm', hp'⟩ := (mem_productsOf hids').mp (hsub product ((mem_productsOf hids).mpr ⟨m, hm, hp⟩))
        obtain ⟨id, -, hmid⟩ := (mapM_eq_some hids').1 m' hm'
        exact ⟨id.month, m', hm', hp', (contractIdentity_eq_some.mp hmid).month.1⟩
      refine ⟨fun m hm => ?_, fun product => ?_, fun product month session hl => (hrolls hl).keepsSessions month session hl,
        fun product a a' ha => (hrolls ha.1).oneAdded a a' ha, fun product r r' hr => ?_,
        fun product month hl => (hrolls hl).notBefore month hl, fun product a r ha hr hcls => ?_⟩
      · rcases hm with hm | hm
        · obtain ⟨id, -, hmid⟩ := (mapM_eq_some hids).1 m hm
          exact ⟨id, contractIdentity_eq_some.mp hmid⟩
        · obtain ⟨id, -, hmid⟩ := (mapM_eq_some hids').1 m hm
          exact ⟨id, contractIdentity_eq_some.mp hmid⟩
      · rw [← mem_productsOf hids, ← mem_productsOf hids']
        exact ⟨hsub product, hsup product⟩
      · obtain ⟨month, hl⟩ := hback hr
        exact (hrolls hl).oneRemoved r r' hr
      · have hlt := (hrolls ha.1).greater a r ha hr hcls
        have hmatch := hmatches (.inl ha.1)
        have hmatch' := hmatches (.inr hr.1)
        cases hma : isMonthly a with
        | true => exact (later_monthly_iff hmatch hmatch' hma (hcls ▸ hma)).mpr hlt
        | false =>
          exact (later_weekly_iff hmatch hmatch' hma (hcls ▸ hma) hlt).mpr
            (hends product a r ha hr hma (hcls ▸ hma))
  · cases h

/-! ## Two weekly series -/

/-- A contract of the product TX. -/
def sampleContract (month : String) : Member where
  memberKey := "TX:" ++ month ++ ":regular"
  symbol := "TX"
  providerSymbol := "TX:" ++ month
  exchange := "TAIFEX"
  currency := "TWD"
  assetClass := "future"
  classification := some (classOf month)
  contractCode := some ("TX:" ++ month)
  productCode := some "TX"
  contractMonth := some month
  session := some "regular"
  mappingStatus := "mapped"

def july : CivilDate := ⟨2026, 7, 1, by decide⟩

/-- In July 2026 the first Wednesday is the 1st and the first Friday is the 3rd. -/
theorem roll_backward :
    taifexDatedRollIsSafe String.toUpper [sampleContract "202607F1"] [sampleContract "202607W1"] july = true ∧
    ¬ ForwardOnly String.toUpper [sampleContract "202607F1"] [sampleContract "202607W1"] july := by
  refine ⟨by decide +kernel, fun h => ?_⟩
  have hlater := h.forward "TX" "202607W1" "202607F1" ⟨⟨_, List.mem_singleton_self _, rfl, rfl⟩, ?_⟩
    ⟨⟨_, List.mem_singleton_self _, rfl, rfl⟩, ?_⟩ (by decide)
  · have hr : lastTradingDay "202607F1" = some (july.toordinal + 2) := by decide +kernel
    have ha : lastTradingDay "202607W1" = some july.toordinal := by decide +kernel
    have hlt : july.toordinal + 2 < july.toordinal := hlater _ hr _ ha
    omega
  · rintro ⟨m, hm, -, hmonth⟩
    rw [List.mem_singleton.mp hm] at hmonth
    revert hmonth
    decide
  · rintro ⟨m, hm, -, hmonth⟩
    rw [List.mem_singleton.mp hm] at hmonth
    revert hmonth
    decide

/-- A monthly roll. -/
theorem roll_forward_monthly :
    ForwardOnly String.toUpper [sampleContract "202607"] [sampleContract "202608"] july := by
  refine (roll_forward_iff (by decide +kernel)).mpr fun product a r ha _ hma _ => ?_
  obtain ⟨m, hm, -, hmonth⟩ := ha.1
  rw [List.mem_singleton.mp hm] at hmonth
  cases hmonth
  exact absurd hma (by decide)

end FinDB.Universe
