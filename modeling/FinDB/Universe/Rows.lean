import FinDB.Lib.Collation
import FinDB.Vocabulary

/-! # Universe members

A universe lists the instruments a dataset expects. Futures members are contracts:
a product, the code of its month or week, and a session. -/
namespace FinDB.Universe
open FinDB.Lib

/-! ## Members -/

/-- What `_semantic_members` keeps of a member. -/
structure Member where
  memberKey : MemberKey
  symbol : String
  providerSymbol : String
  exchange : String
  currency : String
  assetClass : String
  classification : Option String
  contractCode : Option String
  productCode : Option String
  contractMonth : Option String
  session : Option String
  mappingStatus : String
deriving DecidableEq, Repr

structure ContractIdentity where
  product : String
  month : String
  session : String
deriving DecidableEq, Repr

def products : List String := ["TX", "MTX", "TMF", "TE", "TF"]

def sessions : List String := ["regular", "after_hours"]

/-- `[0-9]`. -/
def isDigit (c : Char) : Bool := decide ('0' ≤ c ∧ c ≤ '9')

/-- `[WF][1-5]`. -/
def isWeek (cs : List Char) : Bool :=
  match cs with
  | [letter, n] => (letter == 'W' || letter == 'F') && decide ('1' ≤ n ∧ n ≤ '5')
  | _ => false

/-- `re.fullmatch(r"[0-9]{6}([WF][1-5])?", month)`. -/
def monthMatches (month : String) : Bool :=
  decide (6 ≤ month.toList.length) && (month.toList.take 6).all isDigit &&
  ((month.toList.drop 6).isEmpty || isWeek (month.toList.drop 6))

/-- The class of a code that matches: `[WF][1-5]$` is found or not. -/
def classOf (month : String) : String :=
  if (month.toList.drop 6).isEmpty then "monthly" else "weekly"

section
variable (upper : String → String)

/-- `_contract_identity`. -/
def contractIdentity (member : Member) : Option ContractIdentity :=
  match member.productCode, member.contractMonth, member.session with
  | some product, some month, some session =>
    if !products.contains product || !monthMatches month || !sessions.contains session then none
    else if member.symbol != product || member.providerSymbol != product ++ ":" ++ month ||
        member.contractCode != some (product ++ ":" ++ month) ||
        !(["TAIFEX", "XTAF"].contains (upper member.exchange)) || member.currency != "TWD" ||
        member.assetClass != "future" || member.mappingStatus != "mapped" ||
        member.classification != some (classOf month) then none
    else some ⟨product, month, session⟩
  | _, _, _ => none

/-! ## The automatic roll -/

/-- `set(target)`. -/
def productsOf (ids : List ContractIdentity) : List String := (ids.map (·.product)).dedup

/-- `target[product]`, without the sessions. -/
def monthsOf (ids : List ContractIdentity) (product : String) : List String :=
  ((ids.filter (·.product == product)).map (·.month)).dedup

/-- `target[product][month]`. -/
def sessionsOf (ids : List ContractIdentity) (product month : String) : List String :=
  ((ids.filter fun id => id.product == product && id.month == month).map (·.session)).dedup

/-- `effective_date.strftime("%Y%m")`. -/
def effectiveMonth (date : CivilDate) : String :=
  String.ofList (numeral 10 4 date.year ++ numeral 10 2 date.month)

/-- `len(month) == 6`. -/
def isMonthly (month : String) : Bool := month.length == 6

/-- The difference of two sets. -/
def minus (xs ys : List String) : List String := xs.filter fun x => !ys.contains x

/-- `added and removed and min(added) <= max(removed)`. -/
def notLater (added removed : List String) : Bool :=
  match added.min?, removed.max? with
  | some a, some r => a ≤ r
  | _, _ => false

/-- The body of the loop over the products. -/
def productRolls (previous current : List ContractIdentity) (effective product : String) : Bool :=
  let before := monthsOf previous product
  let now := monthsOf current product
  let addedMonthly := minus (now.filter isMonthly) (before.filter isMonthly)
  let removedMonthly := minus (before.filter isMonthly) (now.filter isMonthly)
  let addedWeekly := minus (now.filter (!isMonthly ·)) (before.filter (!isMonthly ·))
  let removedWeekly := minus (before.filter (!isMonthly ·)) (now.filter (!isMonthly ·))
  !now.any (fun month => String.ofList (month.toList.take 6) < effective) &&
  !before.any (fun month => now.contains month &&
    !(sessionsOf previous product month).all ((sessionsOf current product month).contains ·)) &&
  decide (addedMonthly.length ≤ 1 ∧ removedMonthly.length ≤ 1 ∧
    addedWeekly.length ≤ 1 ∧ removedWeekly.length ≤ 1) &&
  !notLater addedMonthly removedMonthly && !notLater addedWeekly removedWeekly

/-- `set(a) == set(b)`. -/
def sameProducts (previous current : List ContractIdentity) : Bool :=
  (productsOf previous).all ((productsOf current).contains ·) &&
  (productsOf current).all ((productsOf previous).contains ·)

/-- `_taifex_dated_roll_is_safe`, on the values of the two dictionaries. -/
def taifexDatedRollIsSafe (previousMembers currentMembers : List Member)
    (effectiveDate : CivilDate) : Bool :=
  !previousMembers.isEmpty && !currentMembers.isEmpty &&
  match previousMembers.mapM (contractIdentity upper), currentMembers.mapM (contractIdentity upper) with
  | some previous, some current => sameProducts previous current &&
    (productsOf current).all (productRolls previous current (effectiveMonth effectiveDate))
  | _, _ => false

end
end FinDB.Universe
