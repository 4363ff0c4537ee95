import Marketplace.Alerts.Store
import Mathlib.Data.List.Sort

/-!
# The alert pass

A pass works in batches, each of them one transaction: it claims jobs that are not marked,
skipping those that another pass holds, matches them against the saved searches, queues one
digest for each account that has a match, and marks every job it claimed, matched or not.
Nothing but the end of the transaction is seen from outside.

Jobs are posted, closed and reopened meanwhile, by requests that wait for the rows they
write.
-/

namespace Marketplace.Alerts

open Board ReadCommitted

/-- A program of the alert subsystem. -/
abbrev Alerting (α : Type) : Type 1 := Action ℕ Db Query AppError α

/-- The time. -/
def clock : Alerting Instant := .look fun _ db => db.clock

/-! ### Jobs -/

/-- `post`, of a job that was accepted. -/
def post (id : Uuid) (job : NewJob) : Alerting Unit :=
  .transaction .commit .rollback do
    let now ← clock
    let inserted ← Action.query (.insert id job now)
    if inserted then pure () else throw (.internal "duplicate key")

/-- `poster_of`. -/
def posterOf (id : Uuid) : Alerting (Option Uuid) :=
  .look fun j db => (db.jobs.row j id).map fun p => p.postedByUserId

/-- `close`. -/
def close (poster id : Uuid) (status : JobStatus) : Alerting Unit :=
  if h : status = .opened then throw (.invalid "A job can only be closed or cancelled.")
  else .transaction .commit .rollback do
    let now ← clock
    let owner ← posterOf id
    if owner = some poster then do
      let changed ← Action.query (.close id poster ⟨status, h⟩ now)
      if changed.isSome then pure () else throw (.conflict "That job is no longer open.")
    else throw .notFound

/-- `reopen`. -/
def reopen (poster id : Uuid) : Alerting Unit :=
  .transaction .commit .rollback do
    let owner ← posterOf id
    if owner = some poster then do
      let changed ← Action.query (.reopen id poster)
      if changed.isSome then pure () else throw (.conflict
        ("Only a closed job can be reopened. A cancelled job had its photos " ++
          "deleted, so it cannot be put back — post it again instead."))
    else throw .notFound

/-! ### One batch -/

/-- What a pass did. -/
structure Stats where
  jobsConsidered : ℕ := 0
  jobsMatched : ℕ := 0
  digests : ℕ := 0
  deriving DecidableEq

/-- `BATCH`. -/
def batchSize : ℕ := 500

/-- `MAX_BATCHES`. -/
def maxBatches : ℕ := 40

/-- The jobs that are not marked, as process `j` sees them, the oldest first. -/
def unmatchedJobs (j : ℕ) (db : Db) : List Uuid :=
  let createdAt := fun k => (db.jobs.row j k).elim 0 fun p => p.createdAt
  (db.jobs.scan j fun _ p => !p.marked).insertionSort fun k l => createdAt k ≤ createdAt l

/-- Claim one job. -/
def claim (k : Uuid) : Prog ℕ Db Query (Option Uuid) :=
  .query (.claim k) fun held => .ret (held.map fun _ => k)

/-- `claim_unmatched_jobs`. -/
def claimUnmatchedJobs (limit : ℕ) : Alerting (List Uuid) := do
  let unmatched ← Action.look unmatchedJobs
  Action.ofProg (Prog.takeEach claim limit unmatched)

variable (env : Search.Env) (site : Site)

/-- `matches_for_jobs`, as process `j` runs it. -/
def matchesFor (ids : List Uuid) (j : ℕ) (db : Db) : List AlertMatch :=
  matchesForJobs env ((db.jobs.rows j).map Posting.toJob) (db.searches.rows j) db.accounts ids

/-- `alert_jobs`, as process `j` runs it. -/
def alertJobs (ids : List Uuid) (j : ℕ) (db : Db) : List AlertJob :=
  ((db.jobs.rows j).filter fun p => p.id ∈ ids).map (Posting.alertJob db.tradeName)

/-- Queue a digest for each account, under identifiers from the `n`-th on. -/
def enqueueEach (newId : ℕ → Uuid) (jobs : List AlertJob) :
    ℕ → List (Uuid × List AlertMatch) → Alerting Unit
  | _, [] => pure ()
  | n, (userId, alerts) :: rest => do
    let inserted ← Action.query (.enqueue (newId n) (outgoing site jobs userId alerts))
    if inserted then enqueueEach newId jobs (n + 1) rest
    else throw (.internal "duplicate key")

/-- `touch_notified`. -/
def touchNotified (now : Instant) (searchIds : List Uuid) : Alerting ℕ :=
  Action.ofProg (Prog.countEach searchIds fun k =>
    .query (.touch k now) fun hit => .ret hit.isSome)

/-- `mark_jobs_matched`. -/
def markJobsMatched (now : Instant) (ids : List Uuid) : Alerting ℕ :=
  Action.ofProg (Prog.countEach ids fun k => .query (.mark k now) fun hit => .ret hit.isSome)

/-- Queue the digests of the jobs that were claimed. -/
def announce (newId : ℕ → Uuid) (n : ℕ) (now : Instant) (ids : List Uuid) :
    Alerting Stats := do
  let found ← Action.look (matchesFor env ids)
  if found.isEmpty then pure { jobsConsidered := ids.length }
  else do
    let matched := (found.map AlertMatch.jobId).dedup.insertionSort (· ≤ ·)
    let jobs ← Action.look (alertJobs matched)
    enqueueEach site newId jobs n (perUser found)
    let _ ← touchNotified now ((found.map AlertMatch.searchId).dedup.insertionSort (· ≤ ·))
    pure
      { jobsConsidered := ids.length
        jobsMatched := matched.length
        digests := (perUser found).length }

/-- **`run_batch`.** A batch with nothing to do drops its transaction. -/
def runBatch (newId : ℕ → Uuid) (n : ℕ) : Alerting Stats := do
  let now ← clock
  let ids ← claimUnmatchedJobs batchSize
  if ids.isEmpty then do
    let _ ← Action.query .rollback
    pure {}
  else .transaction .commit .rollback do
    let stats ← announce env site newId n now ids
    -- matched or not, considered is considered
    let _ ← markJobsMatched now ids
    pure stats

/-- **`run`**: batches until one of them is not full, and at most this many. -/
def run (newId : ℕ → Uuid) : ℕ → Stats → Alerting Stats
  | 0, stats => pure stats
  | batches + 1, stats => do
    let batch ← runBatch env site newId stats.digests
    let stats : Stats :=
      { jobsConsidered := stats.jobsConsidered + batch.jobsConsidered
        jobsMatched := stats.jobsMatched + batch.jobsMatched
        digests := stats.digests + batch.digests }
    if batch.jobsConsidered < batchSize then pure stats else run newId batches stats

/-! ### The system -/

/-- What a process may be asked to do. -/
inductive Request
  /-- Post a job. -/
  | post (id : Uuid) (job : NewJob)
  /-- Close or cancel a job. -/
  | close (poster id : Uuid) (status : JobStatus)
  /-- Reopen a job. -/
  | reopen (poster id : Uuid)
  /-- Make a pass, whose digests get these identifiers. -/
  | run (newId : ℕ → Uuid)

/-- What it answers. -/
inductive Response
  /-- The job is as asked. -/
  | done
  /-- The pass is over. -/
  | passed (stats : Stats)
  deriving DecidableEq

/-- The program of a request. -/
def serve : Request → Alerting Response
  | .post id job => do
    post id job
    pure .done
  | .close poster id status => do
    close poster id status
    pure .done
  | .reopen poster id => do
    reopen poster id
    pure .done
  | .run newId => do
    let stats ← run env site newId maxBatches {}
    pure (.passed stats)

/-- **The alert subsystem.** -/
def alertSystem : System ℕ Db Request (Except AppError Response) Query where
  run := Query.run
  rollback := .rollback
  tick := fun n db => { db with clock := db.clock + n }
  program := fun _ r => (serve env site r).run

/-- **What there is before the first job**: saved searches, each under its own identifier,
accounts, and trades. -/
structure Setting where
  searches : List SavedSearch
  nodup : (searches.map SavedSearch.id).Nodup
  accounts : List Account
  tradeName : Uuid → Option Text

/-- The database that a run starts from. -/
def Setting.db (setting : Setting) : Db where
  searches := .ofList SavedSearch.id setting.searches setting.nodup
  accounts := setting.accounts
  tradeName := setting.tradeName

/-! ### What is said of runs -/

/-- Job `k` is marked, in what is published. -/
def Marked (db : Db) (k : Uuid) : Prop :=
  ∃ p, (db.jobs.slot k).committed = some p ∧ p.marked = true

/-- **What should alert about job `k`**, by what is published. -/
def alertsOf (db : Db) (k : Uuid) : List AlertMatch :=
  matchesForJobs env (db.jobs.published.map Posting.toJob) db.searches.published db.accounts [k]

end Marketplace.Alerts
