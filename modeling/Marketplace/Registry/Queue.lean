import Marketplace.Registry.Atlas
import Marketplace.ReadCommitted.Unique

/-!
# The geocoding queue

A listing is queued under the digest of its address, and there is at most one open job for it.
-/

namespace Marketplace.Registry

open ReadCommitted

/-! ### Jobs -/

/-- Where a geocoding job is. -/
inductive JobStatus
  | queued
  | inProgress
  | succeeded
  | failed
  | skipped
  deriving DecidableEq

/-- A row of `geocode_queue`. -/
structure GeocodeJob where
  contractorId : Uuid
  addressHash : Digest
  status : JobStatus := .queued
  attempts : ℕ := 0
  nextAttemptAt : Instant
  lockedAt : Option Instant := none
  lockedBy : Option Text := none
  lastError : Option Text := none
  deriving DecidableEq

/-- A claimed job. -/
structure Job where
  id : Uuid
  contractorId : Uuid
  attempts : ℕ
  deriving DecidableEq

namespace GeocodeJob

/-- The job is waiting, or being worked on. -/
def isOpen (job : GeocodeJob) : Bool := job.status = .queued || job.status = .inProgress

/-- The job is due. -/
def due (now : Instant) (job : GeocodeJob) : Bool :=
  job.status = .queued && decide (job.nextAttemptAt ≤ now)

/-- The job has been claimed, too long ago. -/
def stalled (staleAfterSecs : ℕ) (now : Instant) (job : GeocodeJob) : Bool :=
  job.status = .inProgress &&
    job.lockedAt.any fun lockedAt => decide (lockedAt + staleAfterSecs < now)

/-- `claim`, of one row. -/
def claim (id : Uuid) (worker : Text) (now : Instant) (job : GeocodeJob) :
    Option (Job × GeocodeJob) :=
  if job.due now then
    some (⟨id, job.contractorId, job.attempts⟩,
      { job with status := .inProgress, lockedAt := some now, lockedBy := some worker })
  else none

/-- `mark_succeeded`. -/
def markSucceeded (job : GeocodeJob) : Option (Unit × GeocodeJob) :=
  some ((), { job with
    status := .succeeded
    lockedAt := none
    lockedBy := none
    lastError := none })

/-- `mark_failed`. -/
def markFailed (error : Text) (backoffSecs maxAttempts : ℕ) (now : Instant) (job : GeocodeJob) :
    Option (JobStatus × GeocodeJob) :=
  let status : JobStatus := if job.attempts + 1 ≥ maxAttempts then .failed else .queued
  some (status, { job with
    attempts := job.attempts + 1
    lastError := some (error.take 2000)
    lockedAt := none
    lockedBy := none
    status := status
    nextAttemptAt := now + backoffSecs })

/-- `mark_skipped`. -/
def markSkipped (reason : Text) (job : GeocodeJob) : Option (Unit × GeocodeJob) :=
  some ((), { job with
    status := .skipped
    lastError := some reason
    lockedAt := none
    lockedBy := none })

/-- `requeue_stalled`, of one row. -/
def requeue (staleAfterSecs : ℕ) (now : Instant) (job : GeocodeJob) :
    Option (Unit × GeocodeJob) :=
  if job.stalled staleAfterSecs now then
    some ((), { job with status := .queued, lockedAt := none, lockedBy := none })
  else none

/-- A job of the same contractor that is open, where one that is open has no place. -/
def clashes (job other : GeocodeJob) : Bool :=
  job.isOpen && other.isOpen && job.contractorId = other.contractorId

/-- A new job. -/
def new (contractorId : Uuid) (addressHash : Digest) (now : Instant) : GeocodeJob where
  contractorId := contractorId
  addressHash := addressHash
  nextAttemptAt := now

end GeocodeJob

/-! ### The statements on the queue -/

/-- The statements on `geocode_queue`. -/
inductive JobStatement : Type → Type
  /-- Queue a listing for geocoding, unless there is an open job for it. -/
  | enqueue (contractorId : Uuid) (addressHash : Digest) (now : Instant) : JobStatement (Option Uuid)
  /-- Claim a job, unless somebody else holds it. -/
  | claim (id : Uuid) (worker : Text) (now : Instant) : JobStatement (Option Job)
  /-- Record that a job succeeded. -/
  | markSucceeded (id : Uuid) : JobStatement (Option Unit)
  /-- Record that a job failed; nothing is answered, in the first place, when another open job is
  in the way. -/
  | markFailed (id : Uuid) (error : Text) (backoffSecs maxAttempts : ℕ) (now : Instant) :
      JobStatement (Option (Option JobStatus))
  /-- Record that there was nothing to do. -/
  | markSkipped (id : Uuid) (reason : Text) : JobStatement (Option Unit)
  /-- Return an abandoned job to the queue. -/
  | requeue (id : Uuid) (staleAfterSecs : ℕ) (now : Instant) : JobStatement (Option Unit)

/-- The table of jobs. -/
abbrev Queue : Type := Table ℕ Uuid GeocodeJob

namespace JobStatement

variable {β : Type}

/-- **What a statement does.** -/
def run (m : Mode) (i : ℕ) : JobStatement β → Queue → Option (β × Queue)
  | .enqueue contractorId addressHash now, t =>
    let job := GeocodeJob.new contractorId addressHash now
    t.insertFresh m i job.clashes job
  | .claim k worker now, t => t.skipLocked m i k (Table.updating fun job => job.claim k worker now)
  | .markSucceeded k, t => t.modify m i k (Table.updating GeocodeJob.markSucceeded)
  | .markFailed k error backoffSecs maxAttempts now, t =>
    t.modifyUnique m i k GeocodeJob.clashes
      (Table.updating fun job => job.markFailed error backoffSecs maxAttempts now)
  | .markSkipped k reason, t => t.modify m i k (Table.updating fun job => job.markSkipped reason)
  | .requeue k staleAfterSecs now, t =>
    t.modify m i k (Table.updating fun job => job.requeue staleAfterSecs now)

end JobStatement

end Marketplace.Registry
