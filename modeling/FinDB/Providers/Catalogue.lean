import Mathlib.Data.List.Infix
import FinDB.Lib.Grouping
import FinDB.Lib.Raise

/-! # Universe members and a provider's catalogue

The members of an official snapshot are looked up in the catalogue of a provider, by their
exact listing, for a US feed by company name under another exchange, and in Hong Kong under
a symbol without its zeros. Only a single candidate is taken, and a member without one stays
a gap. -/
namespace FinDB.Providers.Catalogue
open FinDB.Lib

abbrev Text := List Char

/-- What the mapping takes from the language: `str.lower`, `str.isdigit` and `\w`. -/
structure Letters where
  lower : Text → Text
  isDigit : Text → Bool
  isWord : Char → Bool

/-- A value of a catalogue row: a text, or any other by its truth and its `str`. -/
inductive Cell where
  | text (t : Text)
  | none
  | scalar (truthy : Bool) (str : Text)
  | container (truthy : Bool) (str : Text)
deriving DecidableEq, Repr

/-- `str`. -/
def Cell.str : Cell → Text
  | .text t => t
  | .none => "None".toList
  | .scalar _ s => s
  | .container _ s => s

def Cell.truthy : Cell → Bool
  | .text t => !t.isEmpty
  | .none => false
  | .scalar b _ => b
  | .container b _ => b

/-- The keys of a row that are read; `none` is an absent key. -/
structure Row where
  symbol : Option Cell
  micCode : Option Cell
  exchange : Option Cell
  currency : Option Cell
  name : Option Cell
  type : Option Cell
  providerSymbol : Option Cell
deriving DecidableEq, Repr

inductive Status where
  | gap | mapped
deriving DecidableEq, Repr

/-- `_member`. -/
structure Member where
  symbol : Text
  providerSymbol : Text
  exchange : Text
  currency : Text
  assetClass : Text
  classification : Text
  mappingStatus : Status
deriving DecidableEq, Repr

inductive CatalogueError where
  | keyError
  /-- `in` a frozenset for a list or a dictionary. -/
  | unhashable
deriving DecidableEq, Repr

/-- Symbol, exchange and currency. -/
abbrev Key := Text × Text × Text

abbrev Index := List (Key × List Row)

/-- Official security names, by symbol. -/
abbrev Names := List (Text × Text)

def Names.named (names : Names) (symbol : Text) : Text := (names.lookup symbol).getD []

def xhkg : Text := "XHKG".toList

/-! ## The index -/

def nasdaqListingSegments : List Text := ["XNCM".toList, "XNGS".toList, "XNMS".toList]

def canonicalTwelveDataMic (mic : Text) : Text :=
  if mic ∈ nasdaqListingSegments then "XNAS".toList else mic

/-- `{"TSE": "XTAI", "OTC": "ROCO"}.get(exchange, exchange)`. -/
def shioajiExchange (exchange : Text) : Text :=
  if exchange = "TSE".toList then "XTAI".toList
  else if exchange = "OTC".toList then "ROCO".toList
  else exchange

/-- `str(row.get(key, ""))`. -/
def strOf (cell : Option Cell) : Text := cell.elim [] Cell.str

def rowSymbol (row : Row) : Text := strOf row.symbol

def rowExchange (shioaji : Bool) (row : Row) : Text :=
  let exchange := strOf (row.micCode <|> row.exchange)
  if shioaji then shioajiExchange exchange else canonicalTwelveDataMic exchange

def rowCurrency (shioaji : Bool) (row : Row) : Text :=
  let currency := strOf row.currency
  if shioaji && currency.isEmpty then "TWD".toList else currency

def rowKey (shioaji : Bool) (row : Row) : Key :=
  (rowSymbol row, rowExchange shioaji row, rowCurrency shioaji row)

def indexCatalogue (shioaji : Bool) (catalogue : List Row) : Index :=
  group (rowKey shioaji) catalogue

/-! ## Names -/

/-- The words of `_COMPANY_NAME_FILLER`. -/
def companyNameFiller : List Text :=
  ["inc", "corp", "corporation", "company", "co", "ltd", "limited", "plc", "the", "class",
    "common", "stock", "share", "shares", "ordinary", "a", "b", "holding", "holdings", "group",
    "llc", "sa", "nv", "adr", "american", "depositary", "and", "of", "acquisition"].map
    String.toList

/-- `[a-z0-9 ]`. -/
def isPlainChar (c : Char) : Bool :=
  (decide ('a' ≤ c) && decide (c ≤ 'z')) || (decide ('0' ≤ c) && decide (c ≤ '9')) || c == ' '

def words (t : Text) : List Text := (t.splitOnP (· == ' ')).filter fun w => !w.isEmpty

/-- What `_FUND_NAME` looks for, each between word boundaries. -/
def fundPhrases : List Text :=
  ["fund", "closed-end", "closed end", "trust", "beneficial interest"].map String.toList

section
variable (abc : Letters)

/-- `core`. A filler word is a whole run of letters and digits, since all else is blank. -/
def core (name : Text) : Text :=
  let plain := (abc.lower name).map fun c => if isPlainChar c then c else ' '
  [' '].intercalate ((words plain).filter fun w => !companyNameFiller.contains w)

def sameCompany (officialName : Text) (catalogueName : Option Cell) : Bool :=
  let other := catalogueName.elim [] fun c => if c.truthy then c.str else []
  !(core abc officialName).isEmpty && core abc officialName == core abc other

/-- The phrase stands at the head of a text and ends at a word boundary. -/
def startsPhrase (phrase t : Text) : Bool :=
  phrase.isPrefixOf t && !((t.drop phrase.length).head?.any abc.isWord)

/-- `re.search(r"\bphrase\b", t)`; `inWord` tells whether a word character stands before. -/
def hasPhrase (phrase : Text) : Bool → Text → Bool
  | _, [] => false
  | inWord, c :: t =>
    (!inWord && startsPhrase abc phrase (c :: t)) || hasPhrase phrase (abc.isWord c) t

/-- `_NASDAQ_FUND_NAME.search(name.lower())`. -/
def isFundName (name : Text) : Bool :=
  fundPhrases.any fun phrase => hasPhrase abc phrase false (abc.lower name)

/-! ## Candidates -/

/-- `_us_candidates`. -/
def usCandidates (m : Member) (indexed : Index) (names : Names) : List Row :=
  let exact := rowsAt indexed (m.symbol, m.exchange, m.currency)
  if exact = [] then
    let elsewhere := rowsWhere indexed fun k => k.1 == m.symbol && k.2.2 == m.currency
    match elsewhere with
    | [row] => if sameCompany abc (names.named m.symbol) row.name then elsewhere else []
    | _ => []
  else exact

/-- `str.zfill` on digits. -/
def zfill (width : Nat) (digits : Text) : Text :=
  List.replicate (width - digits.length) '0' ++ digits

/-- The keys an unpadded Hong Kong symbol may stand under. -/
def padsTo (m : Member) (k : Key) : Bool :=
  abc.isDigit k.1 && zfill 5 k.1 == m.symbol && k.2.1 == xhkg && k.2.2 == m.currency

def listedCandidates (names : Option Names) (m : Member) (indexed : Index) : List Row :=
  match names with
  | some names => usCandidates abc m indexed names
  | none => rowsAt indexed (m.symbol, m.exchange, m.currency)

def candidates (names : Option Names) (m : Member) (indexed : Index) : List Row :=
  let found := listedCandidates abc names m indexed
  if m.exchange = xhkg ∧ found = [] then rowsWhere indexed (padsTo abc m) else found

/-! ## Mapping and scope -/

def twelveDataEquityTypes : List Text :=
  ["Common Stock", "REIT", "American Depositary Receipt", "Depositary Receipt"].map String.toList

def twelveDataOutOfScopeTypes : List Text :=
  ["Preferred Stock", "Warrant", "Right", "Unit", "Exchange-Traded Note"].map String.toList

/-- `row.get("type") in types`. -/
def typeIn (types : List Text) (row : Row) : Except CatalogueError Bool :=
  match row.type with
  | some (.text t) => .ok (types.contains t)
  | some (.container _ _) => .error .unhashable
  | _ => .ok false

/-- `row.get("provider_symbol", row["symbol"])`. -/
def providerSymbolOf (row : Row) : Except CatalogueError Text := do
  let symbol ← need row.symbol .keyError
  pure ((row.providerSymbol.getD symbol).str)

def mappedTo (m : Member) (row : Row) : Except CatalogueError Member := do
  let symbol ← providerSymbolOf row
  pure { m with providerSymbol := symbol, mappingStatus := .mapped }

def unclassified (m : Member) : Bool := m.classification == "classification_gap".toList

/-- The provider type settles what the directory name leaves open. -/
def classified (m : Member) (row : Row) : Member :=
  if unclassified m then
    { m with classification :=
        if "Depositary".toList <:+: strOf row.type then "adr".toList else "ordinary".toList }
  else m

/-- The body of the loop for a member with one candidate. -/
def mapRow (shioaji : Bool) (m : Member) (row : Row) : Except CatalogueError Member := do
  if shioaji then
    if unclassified m then pure m else mappedTo m row
  else
    if ← typeIn twelveDataEquityTypes row then mappedTo (classified m row) row else pure m

def mapMember (shioaji : Bool) (names : Option Names) (indexed : Index) (m : Member) :
    Except CatalogueError Member :=
  match candidates abc names m indexed with
  | [row] => mapRow shioaji m row
  | _ => pure m

def mapCatalogue (shioaji : Bool) (names : Option Names) (members : List Member)
    (catalogue : List Row) : Except CatalogueError (List Member) :=
  members.mapM (mapMember abc shioaji names (indexCatalogue shioaji catalogue))

/-- `candidates[0].get("type") in TWELVE_DATA_OUT_OF_SCOPE_TYPES` for a single candidate. -/
def excludedType (candidates : List Row) : Except CatalogueError Bool :=
  match candidates with
  | [row] => typeIn twelveDataOutOfScopeTypes row
  | _ => pure false

def inScope (names : Names) (indexed : Index) (m : Member) : Except CatalogueError Bool := do
  let excluded ← excludedType (usCandidates abc m indexed names)
  let listed := (indexed.map (·.1.1)).contains m.symbol
  pure (!excluded && (listed || !isFundName abc (names.named m.symbol)))

def scopeUsMembers (names : Names) (catalogue : List Row) :
    List Member → Except CatalogueError (List Member)
  | [] => pure []
  | m :: members => do
    let keep ← inScope abc names (indexCatalogue false catalogue) m
    let rest ← scopeUsMembers names catalogue members
    pure (if keep then m :: rest else rest)

/-! ## What a member is mapped to -/

/-- Why a row may stand for a member: it is the only one of its listing, the only unpadded
one, or the only one anywhere and of the same company. -/
inductive Listed (shioaji : Bool) (names : Option Names) (catalogue : List Row) (m : Member)
    (row : Row) : Prop
  | exact
    (only : (catalogue.filter fun r =>
      decide (rowKey shioaji r = (m.symbol, m.exchange, m.currency))) = [row])
  | unpadded (hongKong : m.exchange = xhkg)
    (only : (catalogue.filter fun r => padsTo abc m (rowKey shioaji r)) = [row])
  | elsewhere (official : Names) (us : names = some official)
    (only : (catalogue.filter fun r =>
      rowSymbol r == m.symbol && rowCurrency shioaji r == m.currency) = [row])
    (same : sameCompany abc (official.named m.symbol) row.name = true)

/-- `m` was mapped to `row`. -/
structure MapsTo (shioaji : Bool) (names : Option Names) (catalogue : List Row) (m : Member)
    (row : Row) : Prop where
  mem : row ∈ catalogue
  symbol : rowSymbol row = m.symbol ∨
    m.exchange = xhkg ∧ rowExchange shioaji row = xhkg ∧ zfill 5 (rowSymbol row) = m.symbol
  currency : rowCurrency shioaji row = m.currency
  listed : Listed abc shioaji names catalogue m row
  taken : providerSymbolOf row = .ok m.providerSymbol

end

/-- What a mapping leaves of a member. -/
def Member.identity (m : Member) : Text × Text × Text × Text :=
  (m.symbol, m.exchange, m.currency, m.assetClass)

/-- Members as a snapshot gives them. -/
structure Unmapped (members : List Member) : Prop where
  gap : ∀ m ∈ members, m.mappingStatus = .gap
  distinct : (members.map (·.symbol)).Nodup
  padded : ∀ m ∈ members, m.exchange = xhkg → m.symbol.length = 5

/-- A row that has a symbol, and a type that can be looked up. -/
def Row.Typed (row : Row) : Prop :=
  row.symbol ≠ none ∧ ∀ truthy str, row.type ≠ some (.container truthy str)

variable {abc : Letters} {shioaji : Bool} {names : Option Names} {catalogue : List Row}

/-! ## The candidates -/

theorem rowsAt_indexCatalogue (k : Key) :
    rowsAt (indexCatalogue shioaji catalogue) k =
      catalogue.filter fun r => decide (rowKey shioaji r = k) :=
  rowsAt_group _ _ _

theorem usCandidates_eq (m : Member) (indexed : Index) (official : Names) :
    usCandidates abc m indexed official =
      if rowsAt indexed (m.symbol, m.exchange, m.currency) = [] then
        ((sole (rowsWhere indexed fun k => k.1 == m.symbol && k.2.2 == m.currency)).filter
          fun row => sameCompany abc (official.named m.symbol) row.name).toList
      else rowsAt indexed (m.symbol, m.exchange, m.currency) := by
  unfold usCandidates
  refine if_congr Iff.rfl ?_ rfl
  generalize rowsWhere indexed _ = rows
  match rows with
  | [] => rfl
  | [row] =>
    by_cases h : sameCompany abc (official.named m.symbol) row.name = true <;> simp [sole, h, Option.filter]
  | _ :: _ :: _ => rfl

theorem rowsWhere_perm {catalogue' : List Row} (h : catalogue'.Perm catalogue) (p : Key → Bool) :
    (rowsWhere (indexCatalogue shioaji catalogue') p).Perm
      (rowsWhere (indexCatalogue shioaji catalogue) p) :=
  ((rowsWhere_group _ _ p).trans (h.filter _)).trans (rowsWhere_group _ _ p).symm

theorem rowsAt_perm {catalogue' : List Row} (h : catalogue'.Perm catalogue) (k : Key) :
    (rowsAt (indexCatalogue shioaji catalogue') k).Perm
      (rowsAt (indexCatalogue shioaji catalogue) k) := by
  rw [rowsAt_indexCatalogue, rowsAt_indexCatalogue]
  exact h.filter _

theorem perm_eq_nil {α : Type} {xs ys : List α} (h : xs.Perm ys) : xs = [] ↔ ys = [] :=
  ⟨fun e => (e ▸ h).nil_eq.symm, fun e => (e ▸ h).eq_nil⟩

theorem usCandidates_perm {catalogue' : List Row} (h : catalogue'.Perm catalogue) (m : Member)
    (official : Names) :
    (usCandidates abc m (indexCatalogue shioaji catalogue') official).Perm
      (usCandidates abc m (indexCatalogue shioaji catalogue) official) := by
  have hexact : (rowsAt (indexCatalogue shioaji catalogue') (m.symbol, m.exchange, m.currency)).Perm
      (rowsAt (indexCatalogue shioaji catalogue) (m.symbol, m.exchange, m.currency)) :=
    rowsAt_perm h _
  rw [usCandidates_eq, usCandidates_eq, sole_perm (rowsWhere_perm h _)]
  simp only [perm_eq_nil hexact]
  split
  · exact List.Perm.refl _
  · exact hexact

theorem listedCandidates_perm {catalogue' : List Row} (h : catalogue'.Perm catalogue)
    (m : Member) :
    (listedCandidates abc names m (indexCatalogue shioaji catalogue')).Perm
      (listedCandidates abc names m (indexCatalogue shioaji catalogue)) := by
  cases names with
  | none => exact rowsAt_perm h _
  | some official => exact usCandidates_perm h m official

/-- The order of the catalogue shows in the candidates by their order alone. -/
theorem candidates_perm {catalogue' : List Row} (h : catalogue'.Perm catalogue) (m : Member) :
    (candidates abc names m (indexCatalogue shioaji catalogue')).Perm
      (candidates abc names m (indexCatalogue shioaji catalogue)) := by
  have hfound : (listedCandidates abc names m (indexCatalogue shioaji catalogue')).Perm
      (listedCandidates abc names m (indexCatalogue shioaji catalogue)) := listedCandidates_perm h m
  simp only [candidates, perm_eq_nil hfound]
  split
  · exact rowsWhere_perm h _
  · exact hfound

theorem only_of_rowsWhere {p : Key → Bool} {row : Row}
    (h : rowsWhere (indexCatalogue shioaji catalogue) p = [row]) :
    (catalogue.filter fun r => p (rowKey shioaji r)) = [row] := by
  have hperm := (rowsWhere_group (rowKey shioaji) catalogue p).symm
  rw [indexCatalogue] at h
  rw [h] at hperm
  exact List.perm_singleton.mp hperm

/-- A single candidate is the row the member is listed under. -/
theorem listed_of_candidates {m : Member} {row : Row}
    (h : candidates abc names m (indexCatalogue shioaji catalogue) = [row]) :
    Listed abc shioaji names catalogue m row := by
  simp only [candidates] at h
  split at h
  · rename_i hk
    exact .unpadded hk.1 (only_of_rowsWhere h)
  · cases names with
    | none => exact .exact (by rw [← rowsAt_indexCatalogue]; exact h)
    | some official =>
      simp only [listedCandidates, usCandidates_eq] at h
      split at h
      · obtain ⟨hsole, hsame⟩ := Option.filter_eq_some_iff.mp
          (Option.toList_eq_singleton_iff.mp h)
        exact .elsewhere official rfl (only_of_rowsWhere (sole_eq_some.mp hsole)) hsame
      · exact .exact (by rw [← rowsAt_indexCatalogue]; exact h)

theorem mem_of_only {p : Row → Bool} {row : Row} (h : catalogue.filter p = [row]) :
    row ∈ catalogue ∧ p row = true :=
  List.mem_filter.mp (h ▸ List.mem_singleton_self row)

theorem Listed.mem {m : Member} {row : Row} (h : Listed abc shioaji names catalogue m row) :
    row ∈ catalogue := by
  cases h with
  | exact only => exact (mem_of_only only).1
  | unpadded _ only => exact (mem_of_only only).1
  | elsewhere _ _ only _ => exact (mem_of_only only).1

theorem Listed.currency {m : Member} {row : Row} (h : Listed abc shioaji names catalogue m row) :
    rowCurrency shioaji row = m.currency := by
  cases h with
  | exact only =>
    have hkey := of_decide_eq_true (mem_of_only only).2
    exact congrArg (·.2.2) hkey
  | unpadded _ only =>
    have hpad := (mem_of_only only).2
    simp only [padsTo, Bool.and_eq_true, beq_iff_eq] at hpad
    exact hpad.2
  | elsewhere _ _ only _ =>
    have hkey := (mem_of_only only).2
    simp only [Bool.and_eq_true, beq_iff_eq] at hkey
    exact hkey.2

theorem Listed.symbol {m : Member} {row : Row} (h : Listed abc shioaji names catalogue m row) :
    rowSymbol row = m.symbol ∨
      m.exchange = xhkg ∧ rowExchange shioaji row = xhkg ∧ zfill 5 (rowSymbol row) = m.symbol := by
  cases h with
  | exact only =>
    have hkey := of_decide_eq_true (mem_of_only only).2
    exact Or.inl (congrArg (·.1) hkey)
  | unpadded hongKong only =>
    have hpad := (mem_of_only only).2
    simp only [padsTo, Bool.and_eq_true, beq_iff_eq] at hpad
    exact Or.inr ⟨hongKong, hpad.1.2, hpad.1.1.2⟩
  | elsewhere _ _ only _ =>
    have hkey := (mem_of_only only).2
    simp only [Bool.and_eq_true, beq_iff_eq] at hkey
    exact Or.inl hkey.1

theorem zfill_self {t : Text} (h : 5 ≤ t.length) : zfill 5 t = t := by
  rw [zfill, Nat.sub_eq_zero_of_le h]
  rfl

/-- The members a row can stand for have one symbol, where Hong Kong is not mapped by
official names. -/
theorem Listed.symbol_eq {m m' : Member} {row : Row}
    (hm : m.exchange = xhkg → m.symbol.length = 5) (hm' : m'.exchange = xhkg → m'.symbol.length = 5)
    (hoff : names = none ∨ m.exchange ≠ xhkg ∧ m'.exchange ≠ xhkg)
    (h : Listed abc shioaji names catalogue m row) (h' : Listed abc shioaji names catalogue m' row) :
    m.symbol = m'.symbol := by
  -- without official names the exchange of a member is the exchange of its row
  have hexchange : ∀ n : Member, names = none → Listed abc shioaji names catalogue n row →
      rowExchange shioaji row = n.exchange := by
    intro n hnone hn
    cases hn with
    | exact only => exact congrArg (·.2.1) (of_decide_eq_true (mem_of_only only).2)
    | unpadded hongKong only =>
      have hpad := (mem_of_only only).2
      simp only [padsTo, Bool.and_eq_true, beq_iff_eq] at hpad
      rw [hongKong, ← hpad.1.2]
      rfl
    | elsewhere official us => rw [hnone] at us; cases us
  rcases hoff with hnone | ⟨hk, hk'⟩
  · have he := hexchange m hnone h
    have he' := hexchange m' hnone h'
    rcases h.symbol with hs | ⟨hk, _, hs⟩ <;> rcases h'.symbol with hs' | ⟨hk', _, hs'⟩
    · rw [← hs, ← hs']
    · rw [← hs', hs, zfill_self (Nat.le_of_eq (hm (he.symm.trans (he'.trans hk'))).symm)]
    · rw [← hs, hs', zfill_self (Nat.le_of_eq (hm' (he'.symm.trans (he.trans hk))).symm)]
    · rw [← hs, ← hs']
  · have hs := h.symbol.resolve_right fun c => hk c.1
    have hs' := h'.symbol.resolve_right fun c => hk' c.1
    rw [← hs, ← hs']

/-! ## One member -/

theorem mapMember_eq (m : Member) (indexed : Index) :
    mapMember abc shioaji names indexed m =
      (sole (candidates abc names m indexed)).elim (pure m) (mapRow shioaji m) := by
  unfold mapMember
  generalize candidates abc names m indexed = rows
  match rows with
  | [] => rfl
  | [row] => rfl
  | _ :: _ :: _ => rfl

theorem mappedTo_ok {m m' : Member} {row : Row} (h : mappedTo m row = .ok m') :
    m'.identity = m.identity ∧ providerSymbolOf row = .ok m'.providerSymbol := by
  obtain ⟨symbol, hsymbol, h⟩ := ok_bind h
  cases ok_pure h
  exact ⟨rfl, hsymbol⟩

theorem classified_identity (m : Member) (row : Row) : (classified m row).identity = m.identity := by
  unfold classified
  split <;> rfl

/-- A candidate leaves the member as it is, or gives it its own symbol. -/
theorem mapRow_ok {m m' : Member} {row : Row} (h : mapRow shioaji m row = .ok m') :
    m'.identity = m.identity ∧ (m' = m ∨ providerSymbolOf row = .ok m'.providerSymbol) := by
  unfold mapRow at h
  split at h
  · split at h
    · cases ok_pure h
      exact ⟨rfl, Or.inl rfl⟩
    · obtain ⟨hid, hsymbol⟩ := mappedTo_ok h
      exact ⟨hid, Or.inr hsymbol⟩
  · obtain ⟨taken, _, h⟩ := ok_bind h
    split at h
    · obtain ⟨hid, hsymbol⟩ := mappedTo_ok h
      exact ⟨hid.trans (classified_identity m row), Or.inr hsymbol⟩
    · cases ok_pure h
      exact ⟨rfl, Or.inl rfl⟩

/-- A member keeps its identity, and is changed by a single candidate alone. -/
theorem mapMember_ok {m m' : Member} {indexed : Index}
    (h : mapMember abc shioaji names indexed m = .ok m') :
    m'.identity = m.identity ∧
      (m' = m ∨ ∃ row, candidates abc names m indexed = [row] ∧
        providerSymbolOf row = .ok m'.providerSymbol) := by
  rw [mapMember_eq] at h
  cases hsole : sole (candidates abc names m indexed) with
  | none =>
    rw [hsole] at h
    cases ok_pure h
    exact ⟨rfl, Or.inl rfl⟩
  | some row =>
    rw [hsole] at h
    obtain ⟨hid, hsame | hsymbol⟩ := mapRow_ok h
    · exact ⟨hid, Or.inl hsame⟩
    · exact ⟨hid, Or.inr ⟨row, sole_eq_some.mp hsole, hsymbol⟩⟩

theorem listed_congr {m m' : Member} {row : Row} (hid : m'.identity = m.identity)
    (h : Listed abc shioaji names catalogue m row) :
    Listed abc shioaji names catalogue m' row := by
  simp only [Member.identity, Prod.mk.injEq] at hid
  obtain ⟨hsymbol, hexchange, hcurrency, _⟩ := hid
  cases h with
  | exact only => exact .exact (by rw [hsymbol, hexchange, hcurrency]; exact only)
  | unpadded hongKong only =>
    refine .unpadded (hexchange.trans hongKong) ?_
    simpa only [padsTo, hsymbol, hcurrency] using only
  | elsewhere official us only same =>
    refine .elsewhere official us ?_ (by rw [hsymbol]; exact same)
    simpa only [hsymbol, hcurrency] using only

/-- What a mapped member was mapped to. -/
theorem mapsTo_of_mapMember {m m' : Member} (hgap : m.mappingStatus = .gap)
    (h : mapMember abc shioaji names (indexCatalogue shioaji catalogue) m = .ok m')
    (hmapped : m'.mappingStatus = .mapped) :
    ∃ row, MapsTo abc shioaji names catalogue m' row := by
  obtain ⟨hid, rfl | ⟨row, hrow, hsymbol⟩⟩ := mapMember_ok h
  · rw [hgap] at hmapped
    cases hmapped
  · have hlisted := listed_congr hid (listed_of_candidates hrow)
    exact ⟨row, hlisted.mem, hlisted.symbol, hlisted.currency, hlisted, hsymbol⟩

theorem typeIn_typed {row : Row} (h : row.Typed) (types : List Text) :
    ∃ b, typeIn types row = .ok b := by
  unfold typeIn
  split
  · exact ⟨_, rfl⟩
  · rename_i truthy str ht
    exact absurd ht (h.2 truthy str)
  · exact ⟨_, rfl⟩

theorem mappedTo_typed {row : Row} (h : row.Typed) (m : Member) :
    ∃ m', mappedTo m row = .ok m' := by
  obtain ⟨symbol, hsymbol⟩ := Option.ne_none_iff_exists'.mp h.1
  have htaken : providerSymbolOf row = .ok ((row.providerSymbol.getD symbol).str) := by
    rw [providerSymbolOf, hsymbol]
    rfl
  exact ⟨_, by rw [mappedTo, htaken]; rfl⟩

theorem mapRow_typed {row : Row} (h : row.Typed) (m : Member) :
    ∃ m', mapRow shioaji m row = .ok m' := by
  obtain ⟨b, hb⟩ := typeIn_typed h twelveDataEquityTypes
  cases shioaji with
  | true =>
    by_cases hu : unclassified m = true
    · exact ⟨m, by simp [mapRow, hu, pure, Except.pure]⟩
    · obtain ⟨m', hm'⟩ := mappedTo_typed h m
      exact ⟨m', by simp [mapRow, hu, hm']⟩
  | false =>
    cases b with
    | true =>
      obtain ⟨m', hm'⟩ := mappedTo_typed h (classified m row)
      exact ⟨m', by simp [mapRow, hb, hm', bind, Except.bind]⟩
    | false => exact ⟨m, by simp [mapRow, hb, bind, Except.bind, pure, Except.pure]⟩

theorem mapMember_typed (h : ∀ row ∈ catalogue, row.Typed) (m : Member) :
    ∃ m', mapMember abc shioaji names (indexCatalogue shioaji catalogue) m = .ok m' := by
  rw [mapMember_eq]
  cases hsole : sole (candidates abc names m (indexCatalogue shioaji catalogue)) with
  | none => exact ⟨m, rfl⟩
  | some row => exact mapRow_typed (h row (listed_of_candidates (sole_eq_some.mp hsole)).mem) m

/-! ## The US scope -/

theorem typeIn_disjoint {row : Row} (h : typeIn twelveDataOutOfScopeTypes row = .ok true) :
    typeIn twelveDataEquityTypes row = .ok false := by
  unfold typeIn at h ⊢
  split at h
  · rename_i t _
    have hmem : t ∈ twelveDataOutOfScopeTypes := by simpa using h
    have hdisjoint : ∀ t ∈ twelveDataOutOfScopeTypes, twelveDataEquityTypes.contains t = false := by
      decide
    rw [hdisjoint t hmem]
  · cases h
  · cases h

theorem usCandidates_unlisted {m : Member} {official : Names}
    (h : ((indexCatalogue shioaji catalogue).map (·.1.1)).contains m.symbol = false) :
    usCandidates abc m (indexCatalogue shioaji catalogue) official = [] := by
  have hno : ∀ row ∈ catalogue, rowSymbol row ≠ m.symbol := by
    intro row hrow hs
    obtain ⟨g, hg, hkey⟩ := List.mem_map.mp
      ((mem_keys_group (rowKey shioaji) catalogue (rowKey shioaji row)).mpr ⟨row, hrow, rfl⟩)
    have hin : m.symbol ∈ (indexCatalogue shioaji catalogue).map (·.1.1) :=
      List.mem_map.mpr ⟨g, hg, by rw [hkey]; exact hs⟩
    rw [← List.contains_iff_mem, h] at hin
    cases hin
  have hexact : rowsAt (indexCatalogue shioaji catalogue) (m.symbol, m.exchange, m.currency) = [] := by
    rw [rowsAt_indexCatalogue, List.filter_eq_nil_iff]
    intro row hrow hkey
    exact hno row hrow (congrArg (·.1) (of_decide_eq_true hkey))
  have helsewhere : (rowsWhere (indexCatalogue shioaji catalogue)
      fun k => k.1 == m.symbol && k.2.2 == m.currency) = [] := by
    refine (perm_eq_nil (rowsWhere_group _ _ _)).mpr (List.filter_eq_nil_iff.mpr ?_)
    intro row hrow hkey
    simp only [Bool.and_eq_true, beq_iff_eq] at hkey
    exact hno row hrow hkey.1
  rw [usCandidates_eq, if_pos hexact, helsewhere]
  rfl

/-- A member out of scope has no candidate, or one of a type that is not mapped. -/
theorem mapMember_out_of_scope {m m' : Member} {official : Names} (hk : m.exchange ≠ xhkg)
    (hscope : inScope abc official (indexCatalogue false catalogue) m = .ok false)
    (h : mapMember abc false (some official) (indexCatalogue false catalogue) m = .ok m') :
    m' = m := by
  have hcandidates : candidates abc (some official) m (indexCatalogue false catalogue) =
      usCandidates abc m (indexCatalogue false catalogue) official :=
    if_neg fun hc => hk hc.1
  obtain ⟨excluded, hexcluded, hscope⟩ := ok_bind hscope
  have hout := (ok_pure hscope).symm
  rw [mapMember_eq, hcandidates] at h
  simp only [Bool.and_eq_false_iff, Bool.not_eq_false', Bool.or_eq_false_iff] at hout
  rcases hout with rfl | ⟨hlisted, _⟩
  · unfold excludedType at hexcluded
    split at hexcluded
    · rename_i row hrow
      rw [hrow] at h
      simp only [sole, Option.elim_some, mapRow, typeIn_disjoint hexcluded] at h
      exact ok_pure h
    · cases ok_pure hexcluded
  · rw [usCandidates_unlisted hlisted] at h
    exact ok_pure h

theorem scopeUsMembers_ok {official : Names} {members kept : List Member}
    (h : scopeUsMembers abc official catalogue members = .ok kept) :
    kept.Sublist members ∧ ∀ m ∈ members,
      m ∈ kept ∨ inScope abc official (indexCatalogue false catalogue) m = .ok false := by
  induction members generalizing kept with
  | nil =>
    cases ok_pure h
    exact ⟨List.Sublist.refl _, fun m hm => absurd hm List.not_mem_nil⟩
  | cons m members ih =>
    obtain ⟨keep, hkeep, h⟩ := ok_bind h
    obtain ⟨rest, hrest, h⟩ := ok_bind h
    obtain ⟨hsub, hmem⟩ := ih hrest
    cases ok_pure h
    cases keep with
    | true =>
      refine ⟨hsub.cons_cons m, fun n hn => ?_⟩
      rcases List.mem_cons.mp hn with rfl | hn
      · exact Or.inl List.mem_cons_self
      · exact (hmem n hn).imp_left (List.mem_cons_of_mem _)
    | false =>
      refine ⟨hsub.cons m, fun n hn => ?_⟩
      rcases List.mem_cons.mp hn with rfl | hn
      · exact Or.inr hkeep
      · exact hmem n hn

/-! ## The whole list -/

theorem mapCatalogue_perm {members catalogue' : List _} (h : catalogue'.Perm catalogue) :
    mapCatalogue abc shioaji names members catalogue' =
      mapCatalogue abc shioaji names members catalogue := by
  have hmember : mapMember abc shioaji names (indexCatalogue shioaji catalogue') =
      mapMember abc shioaji names (indexCatalogue shioaji catalogue) := by
    funext m
    rw [mapMember_eq, mapMember_eq, sole_perm (candidates_perm h m)]
  rw [mapCatalogue, hmember]
  rfl

/-- Mapping keeps every member in its place and is blind to the order of the catalogue. It
returns if the rows have a symbol and a type that can be looked up. A mapped member has a row
of its own symbol and currency that is the only one it may stand for, and the scope keeps
the members that are mapped. No row is taken twice and nothing mapped is dropped, unless
Hong Kong is mapped by official names. -/
theorem mapCatalogue_keeps_coverage {members : List Member} (hm : Unmapped members) :
    (∀ catalogue', catalogue'.Perm catalogue →
      mapCatalogue abc shioaji names members catalogue' =
        mapCatalogue abc shioaji names members catalogue) ∧
    ((∀ row ∈ catalogue, row.Typed) →
      ∃ mapped, mapCatalogue abc shioaji names members catalogue = .ok mapped) ∧
    ∀ mapped, mapCatalogue abc shioaji names members catalogue = .ok mapped →
      mapped.map Member.identity = members.map Member.identity ∧
      (∀ m ∈ mapped, m.mappingStatus = .mapped →
        ∃ row, MapsTo abc shioaji names catalogue m row) ∧
      (names = none ∨ (∀ m ∈ members, m.exchange ≠ xhkg) →
        ∀ m ∈ mapped, ∀ m' ∈ mapped, ∀ row, MapsTo abc shioaji names catalogue m row →
          MapsTo abc shioaji names catalogue m' row → m = m') ∧
      ∀ official kept, names = some official → shioaji = false →
        (∀ m ∈ members, m.exchange ≠ xhkg) →
        scopeUsMembers abc official catalogue members = .ok kept →
        kept.Sublist members ∧
          ∀ m ∈ mapped, m.mappingStatus = .mapped → ∃ k ∈ kept, k.identity = m.identity := by
  refine ⟨fun catalogue' h => mapCatalogue_perm h,
    fun h => exists_mapM_iff.mpr fun m _ => mapMember_typed h m, fun mapped h => ?_⟩
  have hids : mapped.map Member.identity = members.map Member.identity :=
    mapM_keeps (fun m m' hmm => (mapMember_ok hmm).1) h
  obtain ⟨_, hback⟩ := mapM_ok h
  -- an output has the symbol and the exchange of an input
  have hinput : ∀ m ∈ mapped, ∃ n ∈ members, n.symbol = m.symbol ∧ n.exchange = m.exchange := by
    intro m hmem
    obtain ⟨n, hn, hmn⟩ := hback m hmem
    have hid := (mapMember_ok hmn).1
    simp only [Member.identity, Prod.mk.injEq] at hid
    exact ⟨n, hn, hid.1.symm, hid.2.1.symm⟩
  have hdistinct : (mapped.map (·.symbol)).Nodup := by
    have hsymbols : mapped.map (·.symbol) = members.map (·.symbol) := by
      have hfirst := congrArg (List.map (·.1)) hids
      rwa [List.map_map, List.map_map] at hfirst
    rw [hsymbols]
    exact hm.distinct
  refine ⟨hids, fun m hmem hmapped => ?_, fun hoff m hmem m' hmem' row hrow hrow' => ?_, ?_⟩
  · obtain ⟨n, hn, hmn⟩ := hback m hmem
    exact mapsTo_of_mapMember (hm.gap n hn) hmn hmapped
  · obtain ⟨n, hn, hns, hne⟩ := hinput m hmem
    obtain ⟨n', hn', hns', hne'⟩ := hinput m' hmem'
    have hsymbol : m.symbol = m'.symbol :=
      Listed.symbol_eq (fun hk => hns ▸ hm.padded n hn (hne.trans hk))
        (fun hk => hns' ▸ hm.padded n' hn' (hne'.trans hk))
        (hoff.imp_right fun hall => ⟨hne ▸ hall n hn, hne' ▸ hall n' hn'⟩) hrow.listed hrow'.listed
    exact List.inj_on_of_nodup_map hdistinct hmem hmem' hsymbol
  · rintro official kept rfl rfl hk hkept
    obtain ⟨hsub, hscope⟩ := scopeUsMembers_ok hkept
    refine ⟨hsub, fun m hmem hmapped => ?_⟩
    obtain ⟨n, hn, hmn⟩ := hback m hmem
    rcases hscope n hn with hkeep | hout
    · exact ⟨n, hkeep, (mapMember_ok hmn).1.symm⟩
    · rw [mapMember_out_of_scope (hk n hn) hout hmn, hm.gap n hn] at hmapped
      cases hmapped

/-! ## Hong Kong by official names -/

/-- The methods on ASCII text. -/
def asciiLetters : Letters where
  lower := List.map Char.toLower
  isDigit t := !t.isEmpty && t.all Char.isDigit
  isWord c := c.isAlphanum || c == '_'

def member (symbol exchange currency : String) : Member where
  symbol := symbol.toList
  providerSymbol := symbol.toList
  exchange := exchange.toList
  currency := currency.toList
  assetClass := "equity".toList
  classification := "ordinary".toList
  mappingStatus := .gap

def listing (symbol mic currency name : String) (type : Cell) : Row where
  symbol := some (.text symbol.toList)
  micCode := some (.text mic.toList)
  exchange := none
  currency := some (.text currency.toList)
  name := some (.text name.toList)
  type := some type
  providerSymbol := none

def commonStock : Cell := .text "Common Stock".toList

/-- Tencent as a catalogue without zeros lists it. -/
def tencent : Row := listing "700" "XHKG" "HKD" "Tencent Holdings" commonStock

theorem unmapped_tencent : Unmapped [member "00700" "XHKG" "HKD"] where
  gap := by decide
  distinct := by decide
  padded := by decide

theorem mapCatalogue_keeps_coverage_tencent :
    Unmapped [member "00700" "XHKG" "HKD"] ∧
      ∃ mapped, mapCatalogue asciiLetters false none [member "00700" "XHKG" "HKD"] [tencent] =
        .ok mapped :=
  ⟨unmapped_tencent, (mapCatalogue_keeps_coverage unmapped_tencent).2.1 fun row hrow => by
    rw [List.mem_singleton.mp hrow]
    exact ⟨fun h => (by cases h), fun _ _ h => (by cases h)⟩⟩

/-- A symbol that is also official on another exchange takes the row by its name, and the
padded one takes it again. The scope does not look under the unpadded symbol, so it drops a
fund that is mapped. A type that is a list is not looked up at all, and under Shioaji rules
the types out of scope are mapped. -/
theorem mapCatalogue_not_coverage :
    (∃ m m', mapCatalogue asciiLetters false (some [("700".toList, "Tencent".toList)])
        [member "700" "XNYS" "HKD", member "00700" "XHKG" "HKD"] [tencent] = .ok [m, m'] ∧
      m.mappingStatus = .mapped ∧ m'.mappingStatus = .mapped) ∧
    (scopeUsMembers asciiLetters [("00700".toList, "Tracker Fund".toList)] [tencent]
        [member "00700" "XHKG" "HKD"] = .ok [] ∧
      ∃ m, mapCatalogue asciiLetters false (some [("00700".toList, "Tracker Fund".toList)])
          [member "00700" "XHKG" "HKD"] [tencent] = .ok [m] ∧ m.mappingStatus = .mapped) ∧
    mapCatalogue asciiLetters false none [member "A" "XNYS" "USD"]
        [listing "A" "XNYS" "USD" "A" (.container false "[]".toList)] = .error .unhashable ∧
    mapCatalogue asciiLetters false none [member "" "XNYS" "USD"]
        [{ listing "" "XNYS" "USD" "A" commonStock with symbol := none }] = .error .keyError ∧
    (scopeUsMembers asciiLetters [] [listing "A" "XNYS" "USD" "A" (.text "Warrant".toList)]
        [member "A" "XNYS" "USD"] = .ok [] ∧
      ∃ m, mapCatalogue asciiLetters true (some []) [member "A" "XNYS" "USD"]
          [listing "A" "XNYS" "USD" "A" (.text "Warrant".toList)] = .ok [m] ∧
        m.mappingStatus = .mapped) := by
  refine ⟨⟨_, _, rfl, rfl, rfl⟩, ⟨rfl, _, rfl, rfl⟩, rfl, rfl, rfl, _, rfl, rfl⟩

end FinDB.Providers.Catalogue
