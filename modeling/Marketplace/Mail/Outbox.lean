import Marketplace.ReadCommitted.Statements
import Marketplace.ReadCommitted.RelyGuarantee
import Marketplace.Auth.Text

/-!
# The email outbox

A message is queued in the transaction that has a reason for it, and a mail worker
takes it from there: `Marketplace.Mail.Message.claim` marks it as being worked on, and
one of `Marketplace.Mail.Message.markSent` and `Marketplace.Mail.Message.markFailed` says
how that went. A message whose worker has died goes back to the queue
(`Marketplace.Mail.Message.requeue`).

Claiming and requeueing look at the status of the row they write. The two statements that
record an outcome do not: they find their row by its identifier alone, in whatever state it
is by then.
-/

namespace Marketplace

namespace Mail

open ReadCommitted

/-! ### Messages -/

/-- What a message is for. -/
inductive Kind
  /-- A sign-in code. -/
  | loginCode
  /-- A link to reset a password. -/
  | passwordReset
  /-- A digest of new jobs. -/
  | jobAlert
  /-- A code that proves control of an address. -/
  | emailVerify
  deriving DecidableEq

/-- Where a message is. -/
inductive MessageStatus
  /-- Waiting for a worker. -/
  | queued
  /-- Claimed by a worker. -/
  | inProgress
  /-- The provider took it. -/
  | sent
  /-- Given up on. -/
  | failed
  deriving DecidableEq

/-- A message to enqueue, fully rendered. -/
structure NewEmail where
  /-- The account. -/
  userId : Uuid
  /-- The address at enqueue time. -/
  recipient : Text
  /-- What the message is for. -/
  kind : Kind
  /-- The subject. -/
  subject : Text
  /-- The body. -/
  bodyText : Text
  /-- The body once more, in HTML. -/
  bodyHtml : Option Text := none
  /-- Where the reader unsubscribes. -/
  unsubscribeUrl : Option Text := none
  deriving DecidableEq

/-- A row of `email_outbox`. -/
structure Message extends NewEmail where
  /-- Where the message is. -/
  status : MessageStatus := .queued
  /-- How often sending it has failed. -/
  attempts : ℕ := 0
  /-- When it is due. -/
  nextAttemptAt : Instant
  /-- When it was claimed. -/
  lockedAt : Option Instant := none
  /-- Who claimed it. -/
  lockedBy : Option Text := none
  /-- What the provider calls it. -/
  providerMessageId : Option Text := none
  /-- Why sending it failed last. -/
  lastError : Option Text := none
  deriving DecidableEq

/-- A claimed message, everything the worker needs to post it. -/
structure Claimed where
  /-- The row. -/
  id : Uuid
  /-- The address. -/
  recipient : Text
  /-- The subject. -/
  subject : Text
  /-- The body. -/
  bodyText : Text
  /-- The body in HTML. -/
  bodyHtml : Option Text
  /-- Where the reader unsubscribes. -/
  unsubscribeUrl : Option Text
  /-- How often sending it has failed. -/
  attempts : ℕ
  deriving DecidableEq

/-- How much of an error is kept. -/
def lastErrorLen : ℕ := 2000

namespace Message

/-- The message is due. -/
def due (now : Instant) (m : Message) : Bool :=
  m.status = .queued && decide (m.nextAttemptAt ≤ now)

/-- The message has been claimed, too long ago. -/
def stalled (staleAfterSecs : ℕ) (now : Instant) (m : Message) : Bool :=
  m.status = .inProgress && m.lockedAt.any fun lockedAt => decide (lockedAt + staleAfterSecs < now)

/-- `email_outbox::claim`, of one row. -/
def claim (id : Uuid) (worker : Text) (now : Instant) (m : Message) : Option (Claimed × Message) :=
  if m.due now then
    some (⟨id, m.recipient, m.subject, m.bodyText, m.bodyHtml, m.unsubscribeUrl, m.attempts⟩,
      { m with status := .inProgress, lockedAt := some now, lockedBy := some worker })
  else none

/-- `email_outbox::mark_sent`. -/
def markSent (providerMessageId : Option Text) (m : Message) : Option (Unit × Message) :=
  some ((), { m with
    status := .sent
    providerMessageId := providerMessageId
    lockedAt := none
    lockedBy := none
    lastError := none })

/-- `email_outbox::mark_failed`. -/
def markFailed (error : Text) (backoffSecs maxAttempts : ℕ) (now : Instant) (m : Message) :
    Option (MessageStatus × Message) :=
  let status : MessageStatus := if m.attempts + 1 ≥ maxAttempts then .failed else .queued
  some (status, { m with
    attempts := m.attempts + 1
    lastError := some (error.take lastErrorLen)
    lockedAt := none
    lockedBy := none
    status := status
    nextAttemptAt := now + backoffSecs })

/-- `email_outbox::requeue_stalled`, of one row. -/
def requeue (staleAfterSecs : ℕ) (now : Instant) (m : Message) : Option (Unit × Message) :=
  if m.stalled staleAfterSecs now then
    some ((), { m with status := .queued, lockedAt := none, lockedBy := none })
  else none

end Message

/-! ### The store -/

/-- **The database.** -/
structure Db where
  /-- The clock. -/
  clock : Instant := 0
  /-- `email_outbox`. -/
  messages : Table ℕ Uuid Message := .empty

/-- **The queries.** -/
inductive Query : Type → Type 1
  /-- Queue a message. -/
  | insert (id : Uuid) (email : NewEmail) (now : Instant) : Query Bool
  /-- Claim a message, unless somebody else holds it. -/
  | claim (id : Uuid) (worker : Text) (now : Instant) : Query (Option Claimed)
  /-- Record that a message was sent. -/
  | markSent (id : Uuid) (providerMessageId : Option Text) : Query (Option Unit)
  /-- Record that a message was not sent. -/
  | markFailed (id : Uuid) (error : Text) (backoffSecs maxAttempts : ℕ) (now : Instant) :
      Query (Option MessageStatus)
  /-- Return an abandoned message to the queue. -/
  | requeue (id : Uuid) (staleAfterSecs : ℕ) (now : Instant) : Query (Option Unit)
  /-- Commit the open transaction. -/
  | commit : Query Unit
  /-- Roll the open transaction back. -/
  | rollback : Query Unit

/-- **What a query does**, on behalf of process `i`. The two that record an outcome are
committed at once, and so is a claim or a requeue by the transaction around it. -/
def Query.run {β : Type} : Query β → ℕ → Db → Option (β × Db)
  | .insert k email now, i, db =>
    (db.messages.modify .tx i k (Table.inserting { email with nextAttemptAt := now })).map
      fun p => (p.1, { db with messages := p.2 })
  | .claim k worker now, i, db =>
    (db.messages.skipLocked .tx i k (Table.updating (Message.claim k worker now))).map
      fun p => (p.1, { db with messages := p.2 })
  | .markSent k providerMessageId, i, db =>
    (db.messages.modify .auto i k (Table.updating (Message.markSent providerMessageId))).map
      fun p => (p.1, { db with messages := p.2 })
  | .markFailed k error backoffSecs maxAttempts now, i, db =>
    (db.messages.modify .auto i k
      (Table.updating (Message.markFailed error backoffSecs maxAttempts now))).map
      fun p => (p.1, { db with messages := p.2 })
  | .requeue k staleAfterSecs now, i, db =>
    (db.messages.modify .tx i k (Table.updating (Message.requeue staleAfterSecs now))).map
      fun p => (p.1, { db with messages := p.2 })
  | .commit, i, db => some ((), { db with messages := db.messages.commit i })
  | .rollback, i, db => some ((), { db with messages := db.messages.rollback i })

/-! ### Messages that are settled -/

namespace Message

/-- The message was sent, or given up on. -/
def settled (m : Message) : Bool := m.status = .sent || m.status = .failed

variable {m m' : Message} {id : Uuid} {worker error : Text} {now : Instant}

/-- The version keeps the outcome that was recorded, if one was. -/
def Keeps (o o' : Option Message) : Prop :=
  ∀ m, o = some m → m.settled = true → ∃ m', o' = some m' ∧ m'.status = m.status

theorem Keeps.refl (o : Option Message) : Keeps o o := fun m hm _ => ⟨m, hm, rfl⟩

theorem Keeps.trans (o₁ o₂ o₃ : Option Message) (h : Keeps o₁ o₂) (h' : Keeps o₂ o₃) :
    Keeps o₁ o₃ := by
  intro m hm hsettled
  obtain ⟨m₂, hm₂, hstatus⟩ := h m hm hsettled
  obtain ⟨m₃, hm₃, hstatus'⟩ := h' m₂ hm₂ (by rw [settled, hstatus]; exact hsettled)
  exact ⟨m₃, hm₃, hstatus'.trans hstatus⟩

end Message

/-- An update keeps the outcome that was recorded, if it keeps it where there is one. -/
theorem Message.keeps_updating {β : Type} {f : Message → Option (β × Message)}
    {o : Option Message} {m' : Message} (h : (Table.updating f o).2 = some m')
    (hf : ∀ m b, o = some m → f m = some (b, m') → m.settled = true → m'.status = m.status) :
    Message.Keeps o (some m') := by
  obtain ⟨m, b, rfl, hm⟩ := Table.updating_cases h
  intro m₀ hm₀ hsettled
  obtain rfl := Option.some.inj hm₀
  exact ⟨m', rfl, hf m b rfl hm hsettled⟩

end Mail

end Marketplace
