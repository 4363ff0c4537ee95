import Marketplace.Board.Query
import Marketplace.Keyset.Pages
import Marketplace.Sql.OrderBy

/-!
# The pages of the board

How the board orders its rows, where a page resumes, and the list and map queries with
the handlers over them.

An ordering leads with a key – the budget, the distance, how well the text matched, how
well the job fits the contractor looking – and ends in the posting time and the
identifier, both descending. The cursor is a place in that order: the key of the last
row shown, as a double, and the pair that breaks ties. The budget is the one key that is
not a double in the database; it is cast when it is compared with a cursor and not when
it is sorted by.
-/

namespace Marketplace.Board

open Search Sql

/-- A row of `conversations`, as far as the board counts them. -/
structure Conversation where
  jobId : Uuid
  contractorId : Uuid
  deriving DecidableEq

/-- **The tables the board reads.** -/
structure Db where
  jobs : List Job
  conversations : List Conversation
  vocabulary : Vocabulary
  /-- `users.display_name`. -/
  displayName : Uuid → Option Text
  /-- The primary key of `jobs`. -/
  jobs_nodup : (jobs.map Job.id).Nodup

variable (env : Search.Env) (db : Db)

/-! ### Sort keys -/

/-- The distance of a job from the centre, in metres. -/
def distanceExpression (f : Filters) (j : Job) : Option ℚ :=
  f.near.bind fun n => j.publicPoint.map fun p => env.distance p n.center

/-- How well the text matched. -/
def relevanceExpression (f : Filters) (j : Job) : Option ℚ :=
  f.query.map (env.textRank j.searchDoc)

/-- The conversations about a job that are not the viewer's own. -/
def repliesOf (v : Viewer) (j : Job) : ℕ :=
  db.conversations.countP fun c => c.jobId = j.id && c.contractorId ≠ v.contractorId

/-- **How well a job fits the contractor looking at it**: it is their trade, it is near
them, it is fresh, and few have answered it yet. -/
def fitExpression (now : Instant) (v : Viewer) (j : Job) : ℚ :=
  env.toFloat8 <|
    (if (eqAny j.tradeId (boundTrades v.tradeIds)).holds then 1 else 0)
      + (match v.point, j.publicPoint with
          | some q, some p => 6 / 10 * env.exp (-env.distance p q / 40000)
          | _, _ => 0)
      + 5 / 10 * env.exp (-((now : ℚ) - j.createdAt) / 1209600)
      - 25 / 100 * env.ln (1 + repliesOf db v j)

/-- Which value of a row the next cursor carries. -/
inductive KeyField
  | relevance
  | budget
  | distance
  | fit
  deriving DecidableEq

/-- A sort key, as the database types it. -/
inductive KeyExpr
  | bigint (f : Job → Option ℕ)
  | float8 (f : Job → Option ℚ)

/-- The value a key is sorted by. -/
def KeyExpr.value : KeyExpr → Job → Option ℚ
  | bigint f, j => (f j).map fun n : ℕ => (n : ℚ)
  | float8 f, j => f j

/-- The value a key has beside a double. -/
def KeyExpr.asFloat8 : KeyExpr → Job → Option ℚ
  | bigint f, j => (f j).map fun n : ℕ => env.toFloat8 n
  | float8 f, j => f j

/-- **An ordering of the board**: what it leads with, and which way. -/
structure BoardOrdering where
  key : Option KeyExpr
  field : Option KeyField
  /-- Whether the leading key sorts descending. -/
  descending : Bool

/-- Newest first, the last word of every ordering. -/
def newestFirst : Job → Job → Ordering := compareLex (desc Job.createdAt) (desc Job.id)

/-- `order_by`. -/
def BoardOrdering.orderBy (o : BoardOrdering) : Job → Job → Ordering :=
  match o.key with
  | some key =>
    compareLex (if o.descending then descNullsLast key.value else ascNullsLast key.value) newestFirst
  | none => newestFirst

/-- `ordering_for`. -/
def orderingFor (now : Instant) (sort : SortOrder) (f : Filters) : BoardOrdering :=
  match sort with
  | .budget => ⟨some (.bigint Job.budgetMaxCents), some .budget, true⟩
  | .distance =>
    if f.near.isSome then ⟨some (.float8 (distanceExpression env f)), some .distance, false⟩
    else ⟨none, none, true⟩
  | .best =>
    if f.query.isSome then ⟨some (.float8 (relevanceExpression env f)), some .relevance, true⟩
    else ⟨none, none, true⟩
  | .forMe =>
    match f.viewer with
    | some v => ⟨some (.float8 fun j => some (fitExpression env db now v j)), some .fit, true⟩
    -- nobody the board knows is looking
    | none => ⟨none, none, true⟩
  | .newest => ⟨none, none, true⟩

/-! ### The keyset -/

/-- `(j.created_at, j.id) < (at, id)`. -/
def olderThan (j : Job) (c : Cursor) : Bool :=
  j.createdAt < c.createdAt || (j.createdAt = c.createdAt && j.id < c.id)

/-- **The rows after a cursor**: past the key, or level with it and past the tie-break. -/
def BoardOrdering.keyset (o : BoardOrdering) (cursor : Option Cursor) (j : Job) : Truth :=
  match o.key with
  | some key =>
    ((isNull cursor).or
      (if o.descending then lt (key.asFloat8 env j) (cursor.bind Cursor.sortKey)
        else lt (cursor.bind Cursor.sortKey) (key.asFloat8 env j))).or
      ((notDistinct (key.asFloat8 env j) (cursor.bind Cursor.sortKey)).and
        (test olderThan (some j) cursor))
  | none => (isNull cursor).or (test olderThan (some j) cursor)

/-! ### Rows and pages -/

/-- A job as it appears on the board, to anyone. -/
structure PublicJob where
  id : Uuid
  title : Text
  trade : Option Text
  status : JobStatus
  buildType : BuildType
  jobSize : Text
  timeline : JobTimeline
  budgetMinCents : Option ℕ
  budgetMaxCents : Option ℕ
  postalCode : Text
  lat : Option ℚ
  lon : Option ℚ
  locationPrecision : String
  createdAt : Instant
  distanceM : Option ℚ
  description : Text
  posterFirstName : Option Text
  deriving DecidableEq

/-- `split_part(btrim(name), ' ', 1)`. -/
def firstName (name : Text) : Text := (name.dropWhile (· = ' ')).takeWhile (· ≠ ' ')

/-- The slug of a trade. -/
def slugOf (id : Uuid) : Option Text := (db.vocabulary.trades.find? fun t => t.1 = id).map Prod.snd

/-- `JobRow::into_public`, on the projection of a row. -/
def intoPublic (f : Filters) (j : Job) : PublicJob where
  id := j.id
  title := j.title
  trade := j.tradeId.bind (slugOf db)
  status := j.status
  buildType := j.buildType
  jobSize := j.jobSize
  timeline := j.timeline
  budgetMinCents := j.budgetMinCents
  budgetMaxCents := j.budgetMaxCents
  postalCode := j.postalCode
  lat := j.publicPoint.map Point.lat
  lon := j.publicPoint.map Point.lon
  locationPrecision := if j.publicPoint.isSome then "zip_centroid" else "none"
  createdAt := j.createdAt
  distanceM := distanceExpression env f j
  description := j.description
  posterFirstName := (db.displayName j.postedByUserId).map firstName

/-- A row as it is fetched: the job, and the one ranked column. -/
structure JobRow where
  job : Job
  rankScore : Option ℚ

/-- The ranked column, whose meaning follows the ordering. -/
def ranked (now : Instant) (o : BoardOrdering) (f : Filters) (j : Job) : Option ℚ :=
  match o.field with
  | some .fit => f.viewer.map fun v => fitExpression env db now v j
  | _ => relevanceExpression env f j

/-- The cursor that ends a page on a row. -/
def JobRow.cursor (o : BoardOrdering) (f : Filters) (r : JobRow) : Cursor where
  createdAt := r.job.createdAt
  id := r.job.id
  sortKey :=
    match o.field with
    | some .relevance | some .fit => r.rankScore
    | some .budget => r.job.budgetMaxCents.map fun cents : ℕ => env.toFloat8 cents
    | some .distance => distanceExpression env f r.job
    | none => none

/-- A page of the board. -/
structure Page where
  jobs : List PublicJob
  nextCursor : Option Cursor

/-- **`list`**: one page of the board. -/
def list (now : Instant) (f : Filters) (sort : SortOrder) (limit : ℤ) (cursor : Option Cursor) :
    Page :=
  let limit := (clamp limit 1 maxPage).toNat
  let o := orderingFor env db now sort f
  let rows := (orderBy o.orderBy
    (db.jobs.filter fun j => ((predicate env f j).and (o.keyset env cursor j)).holds)).take
      (limit + 1)
  let (rows, next) := Keyset.takeNext limit (JobRow.cursor env o f)
    (rows.map fun j => ⟨j, ranked env db now o f j⟩)
  ⟨rows.map fun r => intoPublic env db f r.job, next⟩

/-- One pin on the jobs map. -/
structure JobPoint where
  id : Uuid
  title : Text
  trade : Option Text
  lat : Option ℚ
  lon : Option ℚ
  budgetMinCents : Option ℕ
  budgetMaxCents : Option ℕ
  deriving DecidableEq

/-- The pin of a job. -/
def jobPoint (j : Job) : JobPoint where
  id := j.id
  title := j.title
  trade := j.tradeId.bind (slugOf db)
  lat := j.publicPoint.map Point.lat
  lon := j.publicPoint.map Point.lon
  budgetMinCents := j.budgetMinCents
  budgetMaxCents := j.budgetMaxCents

/-- `MAX_MAP_POINTS`. -/
def maxMapPoints : ℤ := 500

/-- **`map_points`**: the same predicate, a narrower projection, a cap. -/
def mapPoints (f : Filters) (limit : ℤ) : List JobPoint × Bool :=
  let limit := (clamp limit 1 maxMapPoints).toNat
  let points := ((orderBy newestFirst (db.jobs.filter fun j =>
    ((predicate env f j).and (isNotNull j.publicPoint)).holds)).take (limit + 1)).map (jobPoint db)
  if limit < points.length then (points.dropLast, true) else (points, false)

end Marketplace.Board
