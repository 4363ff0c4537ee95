import Marketplace.Search.Input
import Marketplace.Sql.ThreeValued

/-!
# Jobs and the board's predicate

A job as it is stored, the filters a board is asked with, and the one condition that
decides which rows exist on it, `Marketplace.Board.predicate`. A filter that is absent
is a `NULL` parameter, and each conjunct lets every row pass for it.

The rules of the schema are carried by the types: a budget is a range or nothing, in
order, and a job has a closing time exactly when it is not open.
-/

namespace Marketplace.Board

open Search

/-! ### Vocabularies -/

/-- Lifecycle. -/
inductive JobStatus
  | opened
  | closed
  | cancelled
  deriving DecidableEq

/-- How soon the work is wanted. -/
inductive JobTimeline
  | asap
  | within2Weeks
  | moreThan2Weeks
  | unsure
  deriving DecidableEq

/-- Whether this is new work, a like-for-like swap, or a fix. -/
inductive BuildType
  | newBuild
  | replacement
  | repair
  | unsure
  deriving DecidableEq

/-- The spelling of a timeline. -/
def JobTimeline.asStr : JobTimeline → String
  | asap => "asap"
  | within2Weeks => "within_2_weeks"
  | moreThan2Weeks => "more_than_2_weeks"
  | unsure => "unsure"

/-- The spelling of a build type. -/
def BuildType.asStr : BuildType → String
  | newBuild => "new_build"
  | replacement => "replacement"
  | repair => "repair"
  | unsure => "unsure"

/-- `JobTimeline::ALL`. -/
def JobTimeline.all : List JobTimeline := [asap, within2Weeks, moreThan2Weeks, unsure]

/-- `BuildType::ALL`. -/
def BuildType.all : List BuildType := [newBuild, replacement, repair, unsure]

/-- The value of a vocabulary that a client spelled, or a refusal naming the options. -/
def parseSpelled {α : Type} (all : List α) (asStr : α → String) (what : String) (value : Text) :
    Except AppError α :=
  match all.find? fun a => (asStr a).toList = value with
  | some a => .ok a
  | none => .error (.invalid
      (what ++ " must be one of: " ++ String.intercalate ", " (all.map asStr) ++ "."))

/-- `JobTimeline::parse_request`. -/
def JobTimeline.parseRequest : Text → Except AppError JobTimeline :=
  parseSpelled all asStr "Timeline"

/-- `BuildType::parse_request`. -/
def BuildType.parseRequest : Text → Except AppError BuildType :=
  parseSpelled all asStr "Build type"

/-! ### Rows -/

/-- A budget, in whole cents. -/
structure Budget where
  minCents : ℕ
  maxCents : ℕ
  /-- The lower end does not exceed the upper end. -/
  ordered : minCents ≤ maxCents
  deriving DecidableEq

/-- **A row of `jobs`.** -/
structure Job where
  id : Uuid
  postedByUserId : Uuid
  title : Text
  description : Text
  /-- `none` is the poster's "Other / not listed". -/
  tradeId : Option Uuid
  status : JobStatus
  buildType : BuildType
  jobSize : Text
  /-- `none` is the poster's "I'm not sure". -/
  budget : Option Budget
  timeline : JobTimeline
  postalCode : Text
  /-- The centroid of the ZIP code, when it is known. -/
  publicPoint : Option Point
  closedAt : Option Instant
  createdAt : Instant
  /-- When the job was matched against saved searches. -/
  alertsMatchedAt : Option Instant
  /-- A job has a closing time exactly when it is not open. -/
  closed_iff : closedAt = none ↔ status = .opened
  deriving DecidableEq

/-- The upper end of a job's budget. -/
def Job.budgetMaxCents (j : Job) : Option ℕ := j.budget.map Budget.maxCents

/-- The lower end of a job's budget. -/
def Job.budgetMinCents (j : Job) : Option ℕ := j.budget.map Budget.minCents

/-! ### Filters -/

/-- A centre and a radius. -/
structure Near where
  lat : ℚ
  lon : ℚ
  radiusM : ℚ
  deriving DecidableEq

/-- The centre. -/
def Near.center (n : Near) : Point := ⟨n.lat, n.lon⟩

/-- The contractor looking at the board, and what is known about them. -/
structure Viewer where
  contractorId : Uuid
  /-- The trades their licence carries. -/
  tradeIds : List Uuid
  /-- Where they are, when they have a published point. -/
  point : Option Point
  deriving DecidableEq

/-- **What the board is asked for.** -/
structure Filters where
  /-- Who is looking, when the board knows; only an ordering reads it. -/
  viewer : Option Viewer := none
  query : Option Text := none
  /-- Trades the free text itself asked for. -/
  queryTradeIds : List Uuid := []
  tradeIds : Option (List Uuid) := none
  postalCode : Option Text := none
  near : Option Near := none
  timeline : Option JobTimeline := none
  buildType : Option BuildType := none
  /-- Jobs whose upper budget reaches at least this. -/
  budgetMinCents : Option ℕ := none
  deriving DecidableEq

/-! ### The predicate -/

section Predicate

open Sql

variable (env : Search.Env)

/-- `jobs.search_doc`. -/
def Job.searchDoc (j : Job) : List Text := [j.title, j.description]

/-- A list of trades as it is bound: no trades are no array. -/
def boundTrades (tradeIds : List Uuid) : Option (List Uuid) :=
  if tradeIds.isEmpty then none else some tradeIds

/-- **`PREDICATE`**: which rows exist on the board. -/
def predicate (f : Filters) (j : Job) : Truth :=
  (Truth.ofBool (j.status = .opened)).and <|
  ((isNull f.near).or
    (test (fun p n => dwithin env p n.center n.radiusM) j.publicPoint f.near)).and <|
  ((isNull f.tradeIds).or (eqAny j.tradeId f.tradeIds)).and <|
  ((isNull f.postalCode).or (eq (some j.postalCode) f.postalCode)).and <|
  (((isNull f.query).or (test env.textMatches (some j.searchDoc) f.query)).or
    ((isNotNull (boundTrades f.queryTradeIds)).and
      (eqAny j.tradeId (boundTrades f.queryTradeIds)))).and <|
  ((isNull f.timeline).or (eq (some j.timeline) f.timeline)).and <|
  ((isNull f.buildType).or (eq (some j.buildType) f.buildType)).and <|
  (isNull f.budgetMinCents).or (ge j.budgetMaxCents f.budgetMinCents)

/-- The trades of a query, bound: none of them, or one of theirs. -/
theorem holds_boundTrades {x : Option Uuid} {ids : List Uuid} :
    ((isNotNull (boundTrades ids)).and (eqAny x (boundTrades ids))).holds = true ↔
      ∃ t ∈ x, t ∈ ids := by
  rcases ids with _ | ⟨i, ids⟩
  · simp [boundTrades]
  · simp [boundTrades, holds_eqAny]

/-- **A row on the board**, conjunct by conjunct. -/
theorem predicate_holds {f : Filters} {j : Job} :
    (predicate env f j).holds = true ↔
      j.status = .opened ∧
      (∀ n ∈ f.near, ∃ p ∈ j.publicPoint, env.distance p n.center ≤ n.radiusM) ∧
      (∀ ids ∈ f.tradeIds, ∃ t ∈ j.tradeId, t ∈ ids) ∧
      (∀ z ∈ f.postalCode, j.postalCode = z) ∧
      (∀ q ∈ f.query, env.textMatches j.searchDoc q = true ∨
        ∃ t ∈ j.tradeId, t ∈ f.queryTradeIds) ∧
      (∀ t ∈ f.timeline, j.timeline = t) ∧
      (∀ b ∈ f.buildType, j.buildType = b) ∧
      ∀ c ∈ f.budgetMinCents, ∃ m ∈ j.budgetMaxCents, c ≤ m := by
  have hquery : (((isNull f.query).or
      (test env.textMatches (some j.searchDoc) f.query)).or
      ((isNotNull (boundTrades f.queryTradeIds)).and
        (eqAny j.tradeId (boundTrades f.queryTradeIds)))).holds = true ↔
      ∀ q ∈ f.query, env.textMatches j.searchDoc q = true ∨
        ∃ t ∈ j.tradeId, t ∈ f.queryTradeIds := by
    rw [Truth.holds_or, Bool.or_eq_true, holds_isNull_or_test, holds_boundTrades]
    rcases f.query with _ | q <;> simp
  have hnear : ((isNull f.near).or
      (test (fun p n => dwithin env p n.center n.radiusM) j.publicPoint f.near)).holds = true ↔
      ∀ n ∈ f.near, ∃ p ∈ j.publicPoint, env.distance p n.center ≤ n.radiusM := by
    rw [holds_isNull_or_test]
    simp only [dwithin, decide_eq_true_eq]
  have hbudget : ((isNull f.budgetMinCents).or (ge j.budgetMaxCents f.budgetMinCents)).holds
      = true ↔ ∀ c ∈ f.budgetMinCents, ∃ m ∈ j.budgetMaxCents, c ≤ m := by
    rw [ge, holds_isNull_or_test]
    simp only [decide_eq_true_eq]
  simp only [predicate, Truth.holds_and, Bool.and_eq_true, hquery, hnear, hbudget,
    holds_isNull_or_eqAny, holds_isNull_or_eq, Option.some.injEq, Truth.holds_ofBool,
    decide_eq_true_eq]

end Predicate

end Marketplace.Board
