import Marketplace.ReadCommitted.Ledger
import Marketplace.Retention.Purge
import Marketplace.Maintenance.Operations

/-!
# Pruning

A pass of `maintenance::prune` goes through the tables one after the other, and deletes the rows that
have been finished for longer than a grace period, so many at a time: `Marketplace.Maintenance.drain`
repeats a bounded delete until one of them is not full, or it has made as many as it may. Counters
whose window is over are swept without a grace, and the audit log is left alone unless it is asked
for. Each delete is a transaction of its own.

Passes run beside requests and workers, and beside each other: `Marketplace.Maintenance.machine` takes
operations, the beginnings of passes, and the next delete of a pass, in any order. A pass has read the
clock once, when it began.
-/

namespace Marketplace.Maintenance

open Retention ReadCommitted

/-! ### Rows that are finished -/

section Over

variable (c : ℤ)

/-- The session expired or was revoked before `c`. -/
def sessionOver (r : Record Session) : Bool :=
  decide ((r.row.absoluteExpiresAt : ℤ) < c) || r.row.revoked.any fun p => decide ((p.1 : ℤ) < c)

/-- The token expired or was consumed before `c`. -/
def tokenOver (r : Record AuthToken) : Bool :=
  decide ((r.row.expiresAt : ℤ) < c) || r.row.consumedAt.any fun t : Instant => decide ((t : ℤ) < c)

/-- The job is in a terminal state, and was written before `c`. -/
def jobOver (r : Record Registry.GeocodeJob) : Bool :=
  decide (r.row.status ∈ [.succeeded, .skipped, .failed]) && decide ((r.updatedAt : ℤ) < c)

/-- The message is in a terminal state, and was written before `c`. -/
def emailOver (r : Record Mail.Message) : Bool :=
  decide (r.row.status ∈ [.sent, .failed]) && decide ((r.updatedAt : ℤ) < c)

/-- The entry was made before `c`. -/
def entryOver (r : Uuid × Instant) : Bool := decide ((r.2 : ℤ) < c)

end Over

/-! ### Deletes -/

/-- `as i32`. -/
def asI32 (n : ℤ) : ℤ := n.bmod (2 ^ 32)

/-- The first instant that the database has, and the first that it does not have any more. -/
def timestamps : ℤ × ℤ := (-210866803200 * micros, 9224318016000 * micros)

/-- `$1 - make_interval(days => $2)`. -/
def cutoff (now : Instant) (days : ℤ) : Except AppError ℤ :=
  let c : ℤ := now - asI32 days * day
  if timestamps.1 ≤ c ∧ c < timestamps.2 then .ok c
  else .error (.internal "timestamp out of range")

/-- The rows that a scan comes upon, in its order. -/
structure Found where
  ids : List Uuid
  keys : List RateLimit.Key

/-- **A delete of a pass**, which answers how many rows went. -/
inductive Statement : Type → Type 1
  /-- `prune_sessions`. -/
  | pruneSessions (now : Instant) (graceDays : ℤ) (batch : ℕ) : Statement (Except AppError ℕ)
  /-- `prune_geocode_jobs`. -/
  | pruneGeocodeJobs (now : Instant) (graceDays : ℤ) (batch : ℕ) : Statement (Except AppError ℕ)
  /-- `prune_emails`. -/
  | pruneEmails (now : Instant) (graceDays : ℤ) (batch : ℕ) : Statement (Except AppError ℕ)
  /-- `auth_tokens::prune_expired`. -/
  | pruneExpired (now : Instant) (graceDays : ℤ) (batch : ℕ) : Statement (Except AppError ℕ)
  /-- `rate_limit::sweep_expired`. -/
  | sweepExpired (now : Instant) (batch : ℕ) : Statement (Except AppError ℕ)
  /-- `prune_audit`. -/
  | pruneAudit (now : Instant) (days : ℤ) (batch : ℕ) : Statement (Except AppError ℕ)

/-- A delete of the rows that `isOver` says, given the end of the grace; `put` puts back what is
left. -/
def deleting {α : Type} (now : Instant) (days : ℤ) (isOver : ℤ → α → Bool) (key : α → Uuid)
    (batch : ℕ) (found : Found) (rows : List α) (put : List α → Store) :
    Store × Except AppError ℕ :=
  match cutoff now days with
  | .error e => (put rows, .error e)
  | .ok c =>
    let left := delete key (isOver c) batch found.ids rows
    (put left, .ok (rows.length - left.length))

namespace Statement

variable {β : Type}

/-- **What a delete does.** -/
def run : Statement β → Found → Store → Store × β
  | .pruneSessions now graceDays batch, found, s =>
    deleting now graceDays sessionOver Record.id batch found s.sessions
      fun rows => { s with sessions := rows }
  | .pruneGeocodeJobs now graceDays batch, found, s =>
    deleting now graceDays jobOver Record.id batch found s.queue fun rows => { s with queue := rows }
  | .pruneEmails now graceDays batch, found, s =>
    deleting now graceDays emailOver Record.id batch found s.outbox
      fun rows => { s with outbox := rows }
  | .pruneExpired now graceDays batch, found, s =>
    deleting now graceDays tokenOver Record.id batch found s.tokens
      fun rows => { s with tokens := rows }
  | .sweepExpired now batch, found, s =>
    ({ s with counters := RateLimit.sweepExpired s.counters now batch found.keys },
      .ok (RateLimit.victims s.counters now batch found.keys).dedup.length)
  | .pruneAudit now days batch, found, s =>
    deleting now days entryOver Prod.fst batch found s.audit fun rows => { s with audit := rows }

/-- The instant that the pass has read. -/
def now : Statement β → Instant
  | .pruneSessions now _ _ | .pruneGeocodeJobs now _ _ | .pruneEmails now _ _
  | .pruneExpired now _ _ | .sweepExpired now _ | .pruneAudit now _ _ => now

/-- The grace, for the rows that have one. -/
def graceDays : Statement β → Option ℤ
  | .pruneSessions _ graceDays _ | .pruneGeocodeJobs _ graceDays _ | .pruneEmails _ graceDays _
  | .pruneExpired _ graceDays _ => some graceDays
  | .sweepExpired _ _ | .pruneAudit _ _ _ => none

end Statement

/-! ### Passes -/

/-- A program of a pass. -/
abbrev Pruning (α : Type) : Type 1 := Action Unit Store Statement AppError α

/-- Rows removed per statement. -/
def batchSize : ℕ := 5000

/-- The batches that a pass makes of a table, at most. -/
def maxBatches : ℕ := 40

/-- Counters removed per statement. -/
def sweepBatch : ℕ := 5000

/-- The batches that a sweep makes, at most. -/
def sweepMaxBatches : ℕ := 20

/-- One delete, whose error is the pass's. -/
def deleteOnce (step : Statement (Except AppError ℕ)) : Pruning ℕ := do
  let deleted ← Action.query step
  match deleted with
  | .ok n => pure n
  | .error e => throw e

/-- **A bounded delete is repeated** until it stops finding rows, `n` times at most. -/
def drain (step : Statement (Except AppError ℕ)) (batch : ℕ) : ℕ → ℕ → Pruning ℕ
  | 0, removed => pure removed
  | n + 1, removed => do
    let deleted ← deleteOnce step
    if deleted < batch then pure (removed + deleted) else drain step batch n (removed + deleted)

/-- How many rows went. -/
structure Pruned where
  sessions : ℕ := 0
  geocodeJobs : ℕ := 0
  emails : ℕ := 0
  authTokens : ℕ := 0
  rateLimitWindows : ℕ := 0
  auditRows : ℕ := 0

/-- `ratelimit::sweep`. -/
def sweep (now : Instant) : Pruning ℕ := drain (.sweepExpired now sweepBatch) sweepBatch sweepMaxBatches 0

/-- **`maintenance::prune`.** -/
def prune (now : Instant) (graceDays : ℤ) (auditDays : Option ℤ) : Pruning Pruned := do
  let sessions ← drain (.pruneSessions now graceDays batchSize) batchSize maxBatches 0
  let geocodeJobs ← drain (.pruneGeocodeJobs now graceDays batchSize) batchSize maxBatches 0
  let emails ← drain (.pruneEmails now graceDays batchSize) batchSize maxBatches 0
  let authTokens ← drain (.pruneExpired now graceDays batchSize) batchSize maxBatches 0
  let rateLimitWindows ← sweep now
  let auditRows ← match auditDays with
    | some days => drain (.pruneAudit now days batchSize) batchSize maxBatches 0
    | none => pure 0
  pure
    { sessions := sessions
      geocodeJobs := geocodeJobs
      emails := emails
      authTokens := authTokens
      rateLimitWindows := rateLimitWindows
      auditRows := auditRows }

/-- The grace that the `prune` command passes on. -/
def commandGrace (graceDays : ℤ) : ℤ := max 1 (min graceDays 3650)

/-! ### Runs -/

/-- **The tables, and the passes that are under way.** -/
structure State where
  store : Store
  passes : ℕ → Option (Prog Unit Store Statement (Except AppError Pruned)) := fun _ => none

/-- **An event.** -/
inductive Event
  /-- An operation, at an instant. -/
  | op (now : Instant) (op : Op)
  /-- A pass begins. -/
  | prune (i : ℕ) (now : Instant) (graceDays : ℤ) (auditDays : Option ℤ)
  /-- A pass makes its next delete. -/
  | batch (i : ℕ) (found : Found)

/-- The event is of a pass. -/
def Event.isPruning : Event → Bool
  | .op _ _ => false
  | .prune _ _ _ _ | .batch _ _ => true

/-- What an event does. -/
def State.step (env : Env) (limits : Limits) : Event → State → State × Option Answer
  | .op now op, s => ({ s with store := (op.run env limits now s.store).1 },
      some (op.run env limits now s.store).2)
  | .prune i now graceDays auditDays, s =>
    ({ s with passes := Function.update s.passes i (some (prune now graceDays auditDays).run) }, none)
  | .batch i found, s => match s.passes i with
    | some (.query q k) =>
      ({ store := (q.run found s.store).1
         passes := Function.update s.passes i (some (k (q.run found s.store).2)) }, none)
    | some (.read f k) =>
      ({ s with passes := Function.update s.passes i (some (k (f () s.store))) }, none)
    | _ => (s, none)

/-- **Requests, workers and passes, beside each other.** -/
def machine (env : Env) (limits : Limits) : Machine State Event Answer where
  step := State.step env limits

end Marketplace.Maintenance
