import Mathlib.Logic.Basic

/-! # Three-valued conditions

A condition over nullable columns is true, false or unknown. A query selects the rows
whose condition is true; a check rejects those whose condition is false. -/
namespace FinDB.Lib

/-- A truth value; `none` is unknown. -/
abbrev Truth := Option Bool

namespace Truth

def and : Truth → Truth → Truth
  | some false, _ => some false
  | _, some false => some false
  | some true, some true => some true
  | _, _ => none

def or : Truth → Truth → Truth
  | some true, _ => some true
  | _, some true => some true
  | some false, some false => some false
  | _, _ => none

/-- A comparison; unknown as soon as one side is null. -/
def compare {α : Type} (r : α → α → Bool) : Option α → Option α → Truth
  | some a, some b => some (r a b)
  | _, _ => none

def isNull {α : Type} (a : Option α) : Truth := some a.isNone

def isNotNull {α : Type} (a : Option α) : Truth := some a.isSome

def isDistinctFrom {α : Type} [DecidableEq α] (a b : Option α) : Truth := some (decide (a ≠ b))

/-- A `WHERE` clause. -/
def Selects (t : Truth) : Prop := t = some true

/-- A `CHECK` constraint. -/
def Admits (t : Truth) : Prop := t ≠ some false

instance (t : Truth) : Decidable t.Selects := inferInstanceAs (Decidable (t = some true))

instance (t : Truth) : Decidable t.Admits := inferInstanceAs (Decidable (t ≠ some false))

section
variable {s t : Truth} {α : Type} {a b : Option α} {r : α → α → Bool}

@[simp] theorem selects_and : (and s t).Selects ↔ s.Selects ∧ t.Selects := by
  unfold Selects
  rcases s with _ | _ | _ <;> rcases t with _ | _ | _ <;> decide

@[simp] theorem selects_or : (or s t).Selects ↔ s.Selects ∨ t.Selects := by
  unfold Selects
  rcases s with _ | _ | _ <;> rcases t with _ | _ | _ <;> decide

@[simp] theorem admits_and : (and s t).Admits ↔ s.Admits ∧ t.Admits := by
  unfold Admits
  rcases s with _ | _ | _ <;> rcases t with _ | _ | _ <;> decide

@[simp] theorem admits_or : (or s t).Admits ↔ s.Admits ∨ t.Admits := by
  unfold Admits
  rcases s with _ | _ | _ <;> rcases t with _ | _ | _ <;> decide

@[simp] theorem selects_compare : (compare r a b).Selects ↔ ∃ x ∈ a, ∃ y ∈ b, r x y = true := by
  unfold Selects
  cases a <;> cases b <;> simp [compare]

@[simp] theorem admits_compare : (compare r a b).Admits ↔ ∀ x ∈ a, ∀ y ∈ b, r x y = true := by
  unfold Admits
  cases a <;> cases b <;> simp [compare]

@[simp] theorem selects_isNull : (isNull a).Selects ↔ a = none := by
  unfold Selects isNull
  cases a <;> simp

@[simp] theorem selects_isNotNull : (isNotNull a).Selects ↔ a ≠ none := by
  unfold Selects isNotNull
  cases a <;> simp

@[simp] theorem admits_isNull : (isNull a).Admits ↔ a = none := by
  unfold Admits isNull
  cases a <;> simp

@[simp] theorem admits_isNotNull : (isNotNull a).Admits ↔ a ≠ none := by
  unfold Admits isNotNull
  cases a <;> simp

@[simp] theorem admits_isDistinctFrom [DecidableEq α] : (isDistinctFrom a b).Admits ↔ a ≠ b := by
  unfold Admits isDistinctFrom
  simp

end
end Truth
end FinDB.Lib
