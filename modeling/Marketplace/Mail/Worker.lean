import Marketplace.Mail.Outbox
import Mathlib.Algebra.Group.Nat.Defs
import Mathlib.Data.List.Sort

/-!
# The mail worker

One pass of a worker returns abandoned messages to the queue, claims a batch in a
transaction of its own, and then sends the messages one after the other, holding nothing,
and records each outcome. Any number of workers may be at it, and each of them may stall
between any two steps.

A claim that has gone stale is taken over, and its first holder does not learn of it: what it
records in the end is recorded over whatever the second one made of the message. The messages
that are settled stay so in the runs where this does not happen
(`Marketplace.Mail.outcome_lasts`).
-/

namespace Marketplace

namespace Mail

open ReadCommitted

/-- The knobs of a worker. -/
structure WorkerConfig where
  /-- Messages claimed per pass. -/
  batch : ℕ := 25
  /-- Attempts before a message is given up on. -/
  maxAttempts : ℕ := 8
  /-- The name of the worker. -/
  workerId : Text := "mail-worker".toList
  /-- How long a claimed message may sit before it is assumed abandoned. -/
  staleAfterSecs : ℕ := 600
  deriving DecidableEq

/-- What a pass did. -/
structure Stats where
  /-- Messages returned to the queue. -/
  requeued : ℕ := 0
  /-- Messages claimed. -/
  claimed : ℕ := 0
  /-- Messages sent. -/
  sent : ℕ := 0
  /-- Messages that could not be sent. -/
  failed : ℕ := 0
  deriving DecidableEq

/-- Exponential backoff with a ceiling. -/
def backoffSecs (attempts : ℕ) : ℕ := min (30 * 2 ^ min attempts 10) 3600

/-- A message as the worker hands it to a provider. -/
structure Email where
  /-- The row, which is the idempotency key of the provider. -/
  id : Uuid
  /-- The address. -/
  «to» : Text
  /-- The subject. -/
  subject : Text
  /-- The body. -/
  bodyText : Text
  /-- The body in HTML. -/
  bodyHtml : Option Text
  /-- Where the reader unsubscribes. -/
  unsubscribeUrl : Option Text

/-- The message to post. -/
def Claimed.email (c : Claimed) : Email :=
  ⟨c.id, c.recipient, c.subject, c.bodyText, c.bodyHtml, c.unsubscribeUrl⟩

/-- **A provider**: what it answers a worker, at a time, for a message. -/
structure Mailer where
  /-- Deliver one message, for its identifier at the provider or an error. -/
  send : ℕ → Instant → Email → Except Text (Option Text)

/-! ### Programs -/

/-- A program of the mail subsystem. -/
abbrev Working (α : Type) : Type 1 := Action ℕ Db Query AppError α

/-- The time. -/
def clock : Working Instant := .look fun _ db => db.clock

/-- `email_outbox::enqueue`, in a transaction. -/
def enqueue (id : Uuid) (email : NewEmail) : Working Unit :=
  .transaction .commit .rollback do
    let now ← clock
    let inserted ← Action.query (.insert id email now)
    if inserted then pure () else throw (.internal "duplicate key")

/-- `email_outbox::requeue_stalled`. -/
def requeueStalled (staleAfterSecs : ℕ) : Working ℕ :=
  .transaction .commit .rollback do
    let now ← clock
    let stalled ← Action.look fun j db => db.messages.scan j fun _ m => m.stalled staleAfterSecs now
    Action.ofProg (Prog.countEach stalled fun k =>
      .query (.requeue k staleAfterSecs now) fun hit => .ret hit.isSome)

/-- The messages that are due, as process `j` sees them, the longest due first. -/
def dueMessages (now : Instant) (j : ℕ) (db : Db) : List Uuid :=
  let nextAttemptAt := fun k => (db.messages.row j k).elim 0 Message.nextAttemptAt
  (db.messages.scan j fun _ m => m.due now).insertionSort fun k l =>
    nextAttemptAt k ≤ nextAttemptAt l

/-- Claim as many of these messages as the limit allows, skipping those that are held. -/
def claimEach (worker : Text) (now : Instant) :
    ℕ → List Uuid → Prog ℕ Db Query (List Claimed)
  | _, [] => .ret []
  | 0, _ => .ret []
  | limit + 1, k :: ks => .query (.claim k worker now) fun
    | some c => do
      let cs ← claimEach worker now limit ks
      pure (c :: cs)
    | none => claimEach worker now (limit + 1) ks

/-- `email_outbox::claim`, in a transaction. -/
def claim (worker : Text) (limit : ℕ) : Working (List Claimed) :=
  .transaction .commit .rollback do
    let now ← clock
    let due ← Action.look (dueMessages now)
    Action.ofProg (claimEach worker now limit due)

/-- `email_outbox::mark_failed`. -/
def markFailed (id : Uuid) (error : Text) (backoffSecs maxAttempts : ℕ) :
    Working MessageStatus := do
  let now ← clock
  let status ← Action.query (.markFailed id error backoffSecs maxAttempts now)
  match status with
  | some status => pure status
  | none => throw (.internal "row not found")

/-- Send the messages of a batch, and record each outcome. -/
def deliver (mailer : Mailer) (config : WorkerConfig) : List Claimed → Stats → Working Stats
  | [], stats => pure stats
  | c :: cs, stats => do
    -- nothing is held here, and this may take any time
    let outcome ← Action.look fun j db => mailer.send j db.clock c.email
    match outcome with
    | .ok providerMessageId => do
      let _ ← Action.query (.markSent c.id providerMessageId)
      deliver mailer config cs { stats with sent := stats.sent + 1 }
    | .error error => do
      let _ ← markFailed c.id error (backoffSecs c.attempts) config.maxAttempts
      deliver mailer config cs { stats with failed := stats.failed + 1 }

/-- **One pass over the outbox.** -/
def runOnce (mailer : Mailer) (config : WorkerConfig) : Working Stats := do
  let requeued ← requeueStalled config.staleAfterSecs
  let messages ← claim config.workerId config.batch
  deliver mailer config messages { requeued := requeued, claimed := messages.length }

/-! ### The system -/

/-- What a process may be asked to do. -/
inductive Request
  /-- Queue a message. -/
  | enqueue (id : Uuid) (email : NewEmail)
  /-- Make a pass. -/
  | runOnce (config : WorkerConfig)
  deriving DecidableEq

/-- What it answers. -/
inductive Response
  /-- The message is queued. -/
  | queued
  /-- The pass is over. -/
  | passed (stats : Stats)
  deriving DecidableEq

/-- The program of a request. -/
def serve (mailer : Mailer) : Request → Working Response
  | .enqueue id email => do
    enqueue id email
    pure .queued
  | .runOnce config => do
    let stats ← runOnce mailer config
    pure (.passed stats)

variable {mailer : Mailer}

end Mail

end Marketplace
