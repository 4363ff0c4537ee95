import Marketplace.Maintenance.Store

/-!
# What requests and workers do with the tables

An operation is a statement, or what a request does with several of them, at an instant
(`Marketplace.Maintenance.Op.run`). Besides the operations that read – a session is presented, a code
is guessed, a link is followed, a request is counted, jobs and messages are claimed – there are those
that write the rows they read: sessions begin and end, tokens are issued, and workers record how
their work went.

A request chooses what it does next by the answers it has had, so requests that get the same answers
do the same.
-/

namespace Marketplace.Maintenance

/-- **The limits**: how many requests a bucket may count in a window, and how long its windows are,
as its policy says. The shortest window of a policy is five minutes. -/
structure Limits where
  limit : Digest → ℤ
  window : Digest → ℤ
  long : ∀ bucket, RateLimit.second ≤ window bucket

/-- **An operation.** -/
inductive Op
  /-- A session is presented: `authenticate`. -/
  | authenticate (rawToken : Text)
  /-- The statement of `authenticate` that reads the session. -/
  | findLive (tokenHash : Digest)
  /-- The statement of `authenticate` that writes it. -/
  | touch (sessionId : Uuid) (idleExpiresAt : Instant)
  /-- A session begins. -/
  | insertSession (id : Uuid) (session : Session)
  /-- A session is revoked. -/
  | revoke (sessionId : Uuid) (reason : RevocationReason)
  /-- The sessions of an account are revoked. -/
  | revokeAllForUser (userId : Uuid) (reason : RevocationReason) (except : Option Uuid)
  /-- An account is written. -/
  | setAccount (userId : Uuid) (account : Option User) (roles : List Role)
  /-- A code or a link is issued. -/
  | issue (id userId : Uuid) (purpose : Purpose) (tokenHash : Digest) (ttlSecs : ℕ)
  /-- A code is guessed. -/
  | verifyCode (challengeId : Uuid) (purpose : Purpose) (codeHash : Digest) (maxAttempts : ℕ)
  /-- A code is asked for again. -/
  | challengeUser (challengeId : Uuid)
  /-- A link is looked at. -/
  | peekLink (tokenHash : Digest) (purpose : Purpose)
  /-- A link is followed. -/
  | consumeLink (tokenHash : Digest) (purpose : Purpose)
  /-- A request is counted: `enforce`. -/
  | enforce (bucket : Digest)
  /-- A listing is queued for geocoding. -/
  | enqueueJob (id contractorId : Uuid) (addressHash : Digest)
  /-- Jobs are claimed. -/
  | claimJobs (worker : Text) (limit : ℕ) (view : View)
  /-- A job succeeded. -/
  | markJobSucceeded (jobId : Uuid)
  /-- There was nothing to do. -/
  | markJobSkipped (jobId : Uuid) (reason : Text)
  /-- A job failed. -/
  | markJobFailed (jobId : Uuid) (error : Text) (backoffSecs maxAttempts : ℕ)
  /-- Abandoned jobs go back to the queue. -/
  | requeueJobs (staleAfterSecs : ℕ)
  /-- A message is queued. -/
  | enqueueEmail (id : Uuid) (email : Mail.NewEmail)
  /-- Messages are claimed. -/
  | claimEmails (worker : Text) (limit : ℕ) (view : View)
  /-- A message was sent. -/
  | markEmailSent (messageId : Uuid) (providerMessageId : Option Text)
  /-- A message was not sent. -/
  | markEmailFailed (messageId : Uuid) (error : Text) (backoffSecs maxAttempts : ℕ)
  /-- Abandoned messages go back to the queue. -/
  | requeueEmails (staleAfterSecs : ℕ)
  /-- Something is entered in the audit log. -/
  | record (id : Uuid)

/-- **The answer to an operation.** -/
inductive Answer
  /-- Nothing is answered. Revoking answers how many sessions it revoked, which counts those that had
  only expired; no request of the model depends on that. -/
  | done
  /-- Who is behind a request. -/
  | authenticated (who : Except AppError Accounts.Authenticated)
  /-- A session. -/
  | session (found : Option (Uuid × Session))
  /-- Whether a row was inserted. -/
  | inserted (inserted : Bool)
  /-- How a guess went. -/
  | guessed (outcome : CodeOutcome)
  /-- An account. -/
  | account (userId : Option Uuid)
  /-- How long to wait, if the request is over the limit. -/
  | counted (wait : Except AppError (Option ℤ))
  /-- Claimed jobs. -/
  | jobs (claimed : List Registry.Job)
  /-- Claimed messages. -/
  | emails (claimed : List Mail.Claimed)
  /-- Where a job is now. -/
  | job (status : Except AppError Registry.JobStatus)
  /-- Where a message is now. -/
  | email (status : Except AppError Mail.MessageStatus)
  /-- How many rows went back to the queue. -/
  | requeued (n : ℕ)

variable (env : Env) (limits : Limits) (now : Instant)

/-- `authenticate`: a raw session token is resolved to a live session. -/
def authenticate (rawToken : Text) (s : Store) :
    Store × Except AppError Accounts.Authenticated :=
  match findLive now s.sessions (env.digestToken rawToken) with
  | none => (s, .error .unauthenticated)
  | some r => match s.accounts r.row.userId with
    | none => (s, .error .unauthenticated)
    | some user =>
      if !user.status.canAuthenticate then (s, .error .unauthenticated)
      else
        ({ s with
            sessions :=
              touch now s.sessions r.id (now + env.sessionIdle) Accounts.touchIntervalSecs },
          .ok
            { csrfToken := env.peppered "csrf".toList (env.formatUuid r.id)
              sessionId := r.id
              sessionExpiresAt := r.row.absoluteExpiresAt
              userId := r.row.userId
              user := user
              roles := s.roles r.row.userId })

/-- **What an operation does, and answers.** -/
def Op.run : Op → Store → Store × Answer
  | .authenticate rawToken, s =>
    let served := Maintenance.authenticate env now rawToken s
    (served.1, .authenticated served.2)
  | .findLive tokenHash, s =>
    (s, .session ((Maintenance.findLive now s.sessions tokenHash).map fun r => (r.id, r.row)))
  | .touch sessionId idleExpiresAt, s =>
    ({ s with
        sessions := Maintenance.touch now s.sessions sessionId idleExpiresAt
          Accounts.touchIntervalSecs }, .done)
  | .insertSession id session, s =>
    let written := Maintenance.insertSession now s.sessions id session
    ({ s with sessions := written.2 }, .inserted written.1)
  | .revoke sessionId reason, s =>
    ({ s with sessions := Maintenance.revoke now s.sessions sessionId reason }, .done)
  | .revokeAllForUser userId reason except, s =>
    ({ s with sessions := Maintenance.revokeAllForUser now s.sessions userId reason except }, .done)
  | .setAccount userId account roles, s =>
    ({ s with
        accounts := Function.update s.accounts userId account
        roles := Function.update s.roles userId roles }, .done)
  | .issue id userId purpose tokenHash ttlSecs, s =>
    let written := Maintenance.issue now s.tokens id userId purpose tokenHash ttlSecs
    ({ s with tokens := written.2 }, .inserted written.1)
  | .verifyCode challengeId purpose codeHash maxAttempts, s =>
    let written := Maintenance.verifyCode now s.tokens challengeId purpose codeHash maxAttempts
    ({ s with tokens := written.2 }, .guessed written.1)
  | .challengeUser challengeId, s =>
    (s, .account (Maintenance.challengeUser now s.tokens challengeId))
  | .peekLink tokenHash purpose, s =>
    (s, .account (Maintenance.peekLink now s.tokens tokenHash purpose))
  | .consumeLink tokenHash purpose, s =>
    let written := Maintenance.consumeLink now s.tokens tokenHash purpose
    ({ s with tokens := written.2 }, .account written.1)
  | .enforce bucket, s =>
    let hit := RateLimit.enforce s.counters bucket (limits.limit bucket) (limits.window bucket) now
    ({ s with counters := hit.1 }, .counted hit.2)
  | .enqueueJob id contractorId addressHash, s =>
    let written := Maintenance.enqueueJob now s.queue id contractorId addressHash
    ({ s with queue := written.2 }, .inserted written.1)
  | .claimJobs worker limit view, s =>
    let written := Maintenance.claimJobs now s.queue worker limit view
    ({ s with queue := written.2 }, .jobs written.1)
  | .markJobSucceeded jobId, s =>
    ({ s with queue := Maintenance.markJobSucceeded now s.queue jobId }, .done)
  | .markJobSkipped jobId reason, s =>
    ({ s with queue := Maintenance.markJobSkipped now s.queue jobId reason }, .done)
  | .markJobFailed jobId error backoffSecs maxAttempts, s =>
    let written := Maintenance.markJobFailed now s.queue jobId error backoffSecs maxAttempts
    ({ s with queue := written.2 }, .job written.1)
  | .requeueJobs staleAfterSecs, s =>
    let written := Maintenance.requeueJobs now s.queue staleAfterSecs
    ({ s with queue := written.2 }, .requeued written.1)
  | .enqueueEmail id email, s =>
    let written := Maintenance.enqueueEmail now s.outbox id email
    ({ s with outbox := written.2 }, .inserted written.1)
  | .claimEmails worker limit view, s =>
    let written := Maintenance.claimEmails now s.outbox worker limit view
    ({ s with outbox := written.2 }, .emails written.1)
  | .markEmailSent messageId providerMessageId, s =>
    ({ s with outbox := Maintenance.markEmailSent now s.outbox messageId providerMessageId }, .done)
  | .markEmailFailed messageId error backoffSecs maxAttempts, s =>
    let written := Maintenance.markEmailFailed now s.outbox messageId error backoffSecs maxAttempts
    ({ s with outbox := written.2 }, .email written.1)
  | .requeueEmails staleAfterSecs, s =>
    let written := Maintenance.requeueEmails now s.outbox staleAfterSecs
    ({ s with outbox := written.2 }, .requeued written.1)
  | .record id, s => ({ s with audit := s.audit ++ [(id, now)] }, .done)

/-! ### Operations that are in order -/

/-- A day, in microseconds. -/
def day : ℕ := 86400 * micros

/-- **The operation is in order**, in the store that it finds. What it draws at random is new; and
what it records of a job or a message is not about one that has been settled for over a day. -/
def Op.InOrder : Op → Store → Prop
  | .insertSession id session, s =>
    ∀ r ∈ s.sessions, r.id ≠ id ∧ r.row.tokenHash ≠ session.tokenHash
  | .issue id _ _ tokenHash _, s => ∀ r ∈ s.tokens, r.id ≠ id ∧ r.row.tokenHash ≠ tokenHash
  | .enqueueJob id _ _, s => ∀ r ∈ s.queue, r.id ≠ id
  | .enqueueEmail id _, s => ∀ r ∈ s.outbox, r.id ≠ id
  | .markJobSucceeded jobId, s | .markJobSkipped jobId _, s | .markJobFailed jobId _ _ _, s =>
    ∀ r ∈ s.queue, r.id = jobId → r.row.isOpen = true ∨ now ≤ r.updatedAt + day
  | .markEmailSent messageId _, s | .markEmailFailed messageId _ _ _, s =>
    ∀ r ∈ s.outbox, r.id = messageId → r.row.settled = false ∨ now ≤ r.updatedAt + day
  | _, _ => True

end Marketplace.Maintenance
