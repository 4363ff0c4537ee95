import Mathlib.Data.List.Sort
import Marketplace.Retention.Thinned
import Marketplace.Auth.Accounts
import Marketplace.Mail.Outbox
import Marketplace.Registry.Queue
import Marketplace.RateLimit.Windows

/-!
# The tables that grow

Six tables would grow forever if nothing was deleted: sessions, the codes and links that are sent by
mail, the geocoding queue, the email outbox, the counters of the rate limits, and the audit log. Here
are their statements, each as a function on the rows of its table; what it does to one row is said
where the row is modelled.

Instants are counted in microseconds here, which is how the database keeps them and how
`Marketplace.RateLimit` counts. Where the source gives a duration in seconds, it is converted
(`Marketplace.Maintenance.micros`).
-/

namespace Marketplace.Maintenance

open Retention

/-! ### Rows -/

/-- The microseconds in a second. -/
def micros : ℕ := 10 ^ 6

/-- A row with its identifier, and when it was last written. -/
structure Record (α : Type) where
  id : Uuid
  row : α
  updatedAt : Instant
  deriving DecidableEq

section Writing

variable {α β : Type}

/-- A statement that writes the row where `f` has a new version of it. -/
def Record.write (now : Instant) (f : α → Option (β × α)) (r : Record α) :
    Option (β × Record α) :=
  (f r.row).map fun p => (p.1, { r with row := p.2, updatedAt := now })

/-- A statement with the condition `WHERE id = …`. -/
def Record.only (id : Uuid) (f : Record α → Option (β × Record α)) (r : Record α) :
    Option (β × Record α) :=
  if r.id = id then f r else none

/-- What a statement does to a row that is there, when it does something. -/
def acting (act : Option α → β × Option α) (a : α) : Option (β × α) :=
  (act (some a)).2.map fun a' => ((act (some a)).1, a')

end Writing

/-- **The tables that grow**, with the accounts, which are not pruned. -/
structure Store where
  /-- `users`. -/
  accounts : Uuid → Option User
  /-- `user_roles`. -/
  roles : Uuid → List Role
  /-- `sessions`. -/
  sessions : List (Record Session)
  /-- `auth_tokens`. -/
  tokens : List (Record AuthToken)
  /-- `geocode_queue`. -/
  queue : List (Record Registry.GeocodeJob)
  /-- `email_outbox`. -/
  outbox : List (Record Mail.Message)
  /-- `rate_limit_counters`. -/
  counters : RateLimit.Table
  /-- `audit_log`: the entries, and when they were made. -/
  audit : List (Uuid × Instant)

/-! ### `sessions` -/

section Sessions

variable (now : Instant) (rows : List (Record Session))

/-- `sessions::insert`. -/
def insertSession (id : Uuid) (session : Session) : Bool × List (Record Session) :=
  insert (fun r => r.id = id || r.row.tokenHash = session.tokenHash) ⟨id, session, now⟩ rows

/-- `sessions::find_live`. -/
def findLive (tokenHash : Digest) : Option (Record Session) :=
  rows.find? fun r => r.row.tokenHash = tokenHash && r.row.live now

/-- `sessions::touch`. -/
def touch (sessionId : Uuid) (idleExpiresAt : Instant) (minIntervalSecs : ℕ) :
    List (Record Session) :=
  (update (Record.only sessionId (Record.write now fun s =>
    if s.touchable (minIntervalSecs * micros) now then some ((), s.touched idleExpiresAt now)
    else none)) rows).2

/-- `sessions::revoke`. -/
def revoke (sessionId : Uuid) (reason : RevocationReason) : List (Record Session) :=
  (update (Record.only sessionId (Record.write now
    (acting (Sessions.Query.revoke sessionId reason now).act))) rows).2

/-- `sessions::revoke_all_for_user`. -/
def revokeAllForUser (userId : Uuid) (reason : RevocationReason) (except : Option Uuid) :
    List (Record Session) :=
  (update (fun r => r.write now
    (acting (Sessions.Query.revokeOf r.id userId reason except now).act)) rows).2

end Sessions

/-! ### `auth_tokens` -/

section AuthTokens

variable (now : Instant) (rows : List (Record AuthToken))

/-- `auth_tokens::issue`: the open tokens of the account for the purpose are consumed, and the new one
is inserted. -/
def issue (id userId : Uuid) (purpose : Purpose) (tokenHash : Digest) (ttlSecs : ℕ) :
    Bool × List (Record AuthToken) :=
  let closed := (update (fun r => r.write now
    (acting (AuthTokens.Query.consumeOpen r.id userId purpose now).act)) rows).2
  let inserted := insert (fun r => r.id = id || r.row.tokenHash = tokenHash)
    ⟨id, { userId := userId, purpose := purpose, tokenHash := tokenHash
           expiresAt := now + ttlSecs * micros }, now⟩ closed
  -- one transaction: it is rolled back when there is no place for the new token
  (inserted.1, if inserted.1 then inserted.2 else rows)

/-- `auth_tokens::verify_code`. -/
def verifyCode (challengeId : Uuid) (purpose : Purpose) (codeHash : Digest) (maxAttempts : ℕ) :
    CodeOutcome × List (Record AuthToken) :=
  let written := update (Record.only challengeId (Record.write now (acting
    (AuthTokens.Query.verifyCode challengeId purpose codeHash maxAttempts now).act))) rows
  (written.1.head?.getD .gone, written.2)

/-- `auth_tokens::challenge_user`. -/
def challengeUser (challengeId : Uuid) : Option Uuid :=
  (rows.find? fun r => r.id = challengeId && r.row.purpose = .loginCode && r.row.live now).map
    fun r => r.row.userId

/-- `auth_tokens::peek_link`. -/
def peekLink (tokenHash : Digest) (purpose : Purpose) : Option Uuid :=
  (rows.find? fun r =>
    r.row.tokenHash = tokenHash && r.row.purpose = purpose && r.row.live now).map
    fun r => r.row.userId

/-- `auth_tokens::consume_link`. -/
def consumeLink (tokenHash : Digest) (purpose : Purpose) :
    Option Uuid × List (Record AuthToken) :=
  let written := update (fun r => r.write now
    (acting (AuthTokens.Query.consumeLink r.id tokenHash purpose now).act)) rows
  (written.1.head?.join, written.2)

end AuthTokens

/-! ### The two queues -/

/-- **What a claim finds** besides the rows: an order for those that are due at the same time, and
which rows somebody else holds. -/
structure View where
  rank : Uuid → ℕ
  isLocked : Uuid → Bool

/-- The rows that a claim takes: the longest due first, but none that is held. -/
def claimed {α : Type} (due : α → Bool) (nextAttemptAt : α → Instant) (limit : ℕ) (view : View)
    (rows : List (Record α)) : List Uuid :=
  let waiting := (rows.filter fun r => due r.row).insertionSort fun r r' =>
    nextAttemptAt r.row < nextAttemptAt r'.row ∨
      nextAttemptAt r.row = nextAttemptAt r'.row ∧ view.rank r.id ≤ view.rank r'.id
  ((waiting.filter fun r => !view.isLocked r.id).take limit).map Record.id

section Queue

open Registry

variable (now : Instant) (rows : List (Record GeocodeJob))

/-- `geocode::enqueue`. -/
def enqueueJob (id contractorId : Uuid) (addressHash : Digest) : Bool × List (Record GeocodeJob) :=
  insert (fun r => r.id = id || (GeocodeJob.new contractorId addressHash now).clashes r.row)
    ⟨id, GeocodeJob.new contractorId addressHash now, now⟩ rows

/-- `geocode::claim`. -/
def claimJobs (worker : Text) (limit : ℕ) (view : View) : List Job × List (Record GeocodeJob) :=
  let due := claimed (GeocodeJob.due now) GeocodeJob.nextAttemptAt limit view rows
  update (fun r => if r.id ∈ due then r.write now (GeocodeJob.claim r.id worker now) else none) rows

/-- `geocode::mark_succeeded`. -/
def markJobSucceeded (jobId : Uuid) : List (Record GeocodeJob) :=
  (update (Record.only jobId (Record.write now GeocodeJob.markSucceeded)) rows).2

/-- `geocode::mark_skipped`. -/
def markJobSkipped (jobId : Uuid) (reason : Text) : List (Record GeocodeJob) :=
  (update (Record.only jobId (Record.write now (GeocodeJob.markSkipped reason))) rows).2

/-- The job goes back to the queue where another open one of the contractor is in the way. -/
def blocked (r : Record GeocodeJob) (p : JobStatus × GeocodeJob) : Bool :=
  rows.any fun r' => r'.id ≠ r.id && p.2.clashes r'.row

/-- `geocode::mark_failed`. -/
def markJobFailed (jobId : Uuid) (error : Text) (backoffSecs maxAttempts : ℕ) :
    Except AppError JobStatus × List (Record GeocodeJob) :=
  let failed := GeocodeJob.markFailed error (backoffSecs * micros) maxAttempts now
  match rows.find? fun r => r.id = jobId with
  | none => (.error (.internal "row not found"), rows)
  | some r => match failed r.row with
    | none => (.error (.internal "row not found"), rows)
    | some p =>
      if blocked rows r p then (.error (.internal "duplicate key"), rows)
      else (.ok p.1, (update (Record.only jobId (Record.write now failed)) rows).2)

/-- `geocode::requeue_stalled`. -/
def requeueJobs (staleAfterSecs : ℕ) : ℕ × List (Record GeocodeJob) :=
  let written := update (Record.write now (GeocodeJob.requeue (staleAfterSecs * micros) now)) rows
  (written.1.length, written.2)

end Queue

section Outbox

open Mail

variable (now : Instant) (rows : List (Record Message))

/-- `email_outbox::enqueue`. -/
def enqueueEmail (id : Uuid) (email : NewEmail) : Bool × List (Record Message) :=
  insert (fun r => r.id = id) ⟨id, { email with nextAttemptAt := now }, now⟩ rows

/-- `email_outbox::claim`. -/
def claimEmails (worker : Text) (limit : ℕ) (view : View) :
    List Claimed × List (Record Message) :=
  let due := claimed (Message.due now) Message.nextAttemptAt limit view rows
  update (fun r => if r.id ∈ due then r.write now (Message.claim r.id worker now) else none) rows

/-- `email_outbox::mark_sent`. -/
def markEmailSent (messageId : Uuid) (providerMessageId : Option Text) : List (Record Message) :=
  (update (Record.only messageId (Record.write now (Message.markSent providerMessageId))) rows).2

/-- `email_outbox::mark_failed`. -/
def markEmailFailed (messageId : Uuid) (error : Text) (backoffSecs maxAttempts : ℕ) :
    Except AppError MessageStatus × List (Record Message) :=
  let written := update (Record.only messageId (Record.write now
    (Message.markFailed error (backoffSecs * micros) maxAttempts now))) rows
  (match written.1.head? with
    | some status => .ok status
    | none => .error (.internal "row not found"), written.2)

/-- `email_outbox::requeue_stalled`. -/
def requeueEmails (staleAfterSecs : ℕ) : ℕ × List (Record Message) :=
  let written := update (Record.write now (Message.requeue (staleAfterSecs * micros) now)) rows
  (written.1.length, written.2)

end Outbox

end Marketplace.Maintenance
