import Mathlib.Data.Option.Basic
import Mathlib.Order.Basic
import Mathlib.Tactic.Common

/-!
# Conditions in SQL

A condition of a `WHERE` clause is true, false or unknown, and a row is kept only when
it is true. A column or a parameter is an `Option`: `none` is `NULL`, and a comparison
with `NULL` is unknown, except for `IS NULL` and `IS NOT DISTINCT FROM`, which never
are.

What a condition comes to once only its truth matters is read off its shape:
`Sql.Truth.holds_and`, `Sql.Truth.holds_or` for the connectives, `Sql.holds_test` and
`Sql.holds_eqAny` for the comparisons. Negation is the one connective for which that
fails, so it has no such lemma: a false condition and an unknown one are not kept
alike.
-/

namespace Sql

variable {α β : Type*}

/-! ### Truth values -/

/-- The truth values of SQL. -/
inductive Truth
  | no
  | unknown
  | yes
  deriving DecidableEq

namespace Truth

/-- `AND`: the least of the two. -/
def and : Truth → Truth → Truth
  | yes, t => t
  | no, _ => no
  | unknown, no => no
  | unknown, _ => unknown

/-- `OR`: the greatest of the two. -/
def or : Truth → Truth → Truth
  | no, t => t
  | yes, _ => yes
  | unknown, yes => yes
  | unknown, _ => unknown

/-- `NOT`. -/
def not : Truth → Truth
  | no => yes
  | unknown => unknown
  | yes => no

/-- A condition that is never unknown. -/
def ofBool (b : Bool) : Truth := if b then yes else no

/-- Whether a row with this condition is kept. -/
def holds (t : Truth) : Bool := t = yes

@[simp] theorem holds_yes : yes.holds = true := rfl

@[simp] theorem holds_no : no.holds = false := rfl

@[simp] theorem holds_unknown : unknown.holds = false := rfl

@[simp] theorem holds_and (s t : Truth) : (s.and t).holds = (s.holds && t.holds) := by
  cases s <;> cases t <;> rfl

@[simp] theorem holds_or (s t : Truth) : (s.or t).holds = (s.holds || t.holds) := by
  cases s <;> cases t <;> rfl

@[simp] theorem holds_ofBool (b : Bool) : (ofBool b).holds = b := by
  cases b <;> rfl

end Truth

/-! ### Comparisons -/

/-- `x IS NULL`. -/
def isNull (x : Option α) : Truth := .ofBool x.isNone

/-- `x IS NOT NULL`. -/
def isNotNull (x : Option α) : Truth := .ofBool x.isSome

/-- A comparison of two values, unknown as soon as one of them is `NULL`. -/
def test (p : α → β → Bool) : Option α → Option β → Truth
  | some a, some b => .ofBool (p a b)
  | _, _ => .unknown

/-- `x = y`. -/
def eq [DecidableEq α] (x y : Option α) : Truth := test (fun a b => decide (a = b)) x y

/-- `x < y`. -/
def lt [LT α] [DecidableLT α] (x y : Option α) : Truth := test (fun a b => decide (a < b)) x y

/-- `x >= y`. -/
def ge [LE α] [DecidableLE α] (x y : Option α) : Truth := test (fun a b => decide (b ≤ a)) x y

/-- `x <> y`. -/
def ne [DecidableEq α] (x y : Option α) : Truth := (eq x y).not

/-- `x IS NOT DISTINCT FROM y`, which takes `NULL` for equal to itself. -/
def notDistinct [DecidableEq α] (x y : Option α) : Truth := .ofBool (x = y)

/-- `x = ANY(xs)`, for an array without `NULL`s that may be `NULL` itself. -/
def eqAny [DecidableEq α] : Option α → Option (List α) → Truth
  | _, none => .unknown
  | some a, some xs => .ofBool (a ∈ xs)
  | none, some [] => .no
  | none, some (_ :: _) => .unknown

@[simp] theorem holds_isNull (x : Option α) : (isNull x).holds = x.isNone := by
  simp [isNull]

@[simp] theorem holds_isNotNull (x : Option α) : (isNotNull x).holds = x.isSome := by
  simp [isNotNull]

/-- **A comparison is kept** exactly between two values that compare so. -/
theorem holds_test {p : α → β → Bool} {x : Option α} {y : Option β} :
    (test p x y).holds = true ↔ ∃ a ∈ x, ∃ b ∈ y, p a b = true := by
  rcases x with _ | a
  · simp [test]
  · rcases y with _ | b
    · simp [test]
    · simp [test]

@[simp] theorem holds_test_some (p : α → β → Bool) (a : α) (b : β) :
    (test p (some a) (some b)).holds = p a b := by
  simp [test]

@[simp] theorem holds_test_none_left (p : α → β → Bool) (y : Option β) :
    (test p none y).holds = false := rfl

@[simp] theorem holds_test_none_right (p : α → β → Bool) (x : Option α) :
    (test p x none).holds = false := by
  cases x <;> rfl

theorem holds_eq [DecidableEq α] {x y : Option α} :
    (eq x y).holds = true ↔ ∃ a, x = some a ∧ y = some a := by
  rw [eq, holds_test]
  constructor
  · rintro ⟨a, ha, b, hb, h⟩
    obtain rfl : a = b := by simpa using h
    exact ⟨a, ha, hb⟩
  · rintro ⟨a, ha, hb⟩
    exact ⟨a, ha, a, hb, by simp⟩

theorem holds_lt [LT α] [DecidableLT α] {x y : Option α} :
    (lt x y).holds = true ↔ ∃ a ∈ x, ∃ b ∈ y, a < b := by
  simp [lt, holds_test]

/-- An inequality is kept between two values that differ, never beside a `NULL`. -/
theorem holds_ne [DecidableEq α] {x y : Option α} :
    (ne x y).holds = true ↔ ∃ a ∈ x, ∃ b ∈ y, a ≠ b := by
  rcases x with _ | a
  · simp [ne, eq, test, Truth.not]
  · rcases y with _ | b
    · simp [ne, eq, test, Truth.not]
    · by_cases h : a = b <;> simp [ne, eq, test, Truth.not, Truth.ofBool, h]

@[simp] theorem holds_notDistinct [DecidableEq α] (x y : Option α) :
    (notDistinct x y).holds = decide (x = y) := by
  simp [notDistinct]

/-- **Membership is kept** exactly for a value that the array contains. -/
theorem holds_eqAny [DecidableEq α] {x : Option α} {xs : Option (List α)} :
    (eqAny x xs).holds = true ↔ ∃ a ∈ x, ∃ l ∈ xs, a ∈ l := by
  rcases xs with _ | l
  · simp [eqAny]
  · rcases x with _ | a
    · cases l <;> simp [eqAny]
    · simp [eqAny]

/-- **A parameter that may be absent**: without it every row is kept. -/
theorem holds_isNull_or {x : Option α} {t : Truth} :
    ((isNull x).or t).holds = true ↔ ∀ a ∈ x, t.holds = true := by
  rcases x with _ | a <;> simp

/-- A filter that compares asks nothing when it is absent. -/
theorem holds_isNull_or_test {p : α → β → Bool} {x : Option α} {y : Option β} :
    ((isNull y).or (test p x y)).holds = true ↔ ∀ b ∈ y, ∃ a ∈ x, p a b = true := by
  rw [holds_isNull_or]
  constructor
  · intro h b hb
    obtain ⟨a, ha, b', hb', hp⟩ := holds_test.mp (h b hb)
    obtain rfl : b' = b := Option.mem_unique hb' hb
    exact ⟨a, ha, hp⟩
  · intro h b hb
    obtain ⟨a, ha, hp⟩ := h b hb
    exact holds_test.mpr ⟨a, ha, b, hb, hp⟩

/-- A filter by equality. -/
theorem holds_isNull_or_eq [DecidableEq α] {x y : Option α} :
    ((isNull y).or (eq x y)).holds = true ↔ ∀ b ∈ y, x = some b := by
  rw [eq, holds_isNull_or_test]
  simp

/-- A filter by a list of values. -/
theorem holds_isNull_or_eqAny [DecidableEq α] {x : Option α} {ys : Option (List α)} :
    ((isNull ys).or (eqAny x ys)).holds = true ↔ ∀ l ∈ ys, ∃ a ∈ x, a ∈ l := by
  rw [holds_isNull_or]
  rcases ys with _ | l
  · simp
  · simp [holds_eqAny]

end Sql
