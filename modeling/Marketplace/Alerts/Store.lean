import Marketplace.Alerts.Digest
import Marketplace.ReadCommitted.Statements
import Marketplace.ReadCommitted.RelyGuarantee

/-!
# The tables of the alert pass

A job that has not been matched against saved searches is one whose `alerts_matched_at` is
`NULL`: the insertion of a job queues it. A pass claims it by locking its row, and marks it
in the transaction that queues the digests.

Claiming looks at the mark of the row and at nothing else, and marking finds its row by its
identifier alone. To say what a job was when it was marked, a row keeps what no statement
reads, the status it had each time (`Marketplace.Alerts.Posting.marks`).
-/

namespace Marketplace.Alerts

open Board Search ReadCommitted

/-! ### Rows -/

/-- **A row of `jobs`**, with its history of marks. -/
structure Posting extends Job where
  /-- The status the job had each time it was marked. -/
  marks : List JobStatus
  /-- A job is marked exactly when it has a time of it. -/
  marks_iff : marks = [] ↔ alertsMatchedAt = none
  deriving DecidableEq

/-- A job to insert. -/
structure NewJob where
  postedByUserId : Uuid
  title : Text
  description : Text
  tradeId : Option Uuid
  buildType : BuildType
  jobSize : Text
  budget : Option Budget
  timeline : JobTimeline
  postalCode : Text
  /-- The centroid of the ZIP code, when it resolves to one. -/
  centroid : Option Point
  deriving DecidableEq

/-- A job that is open is not closed. -/
theorem closed_iff_opened : (none : Option Instant) = none ↔ JobStatus.opened = .opened :=
  iff_of_true rfl rfl

/-- `jobs::insert`. -/
def NewJob.row (job : NewJob) (id : Uuid) (now : Instant) : Posting where
  id := id
  postedByUserId := job.postedByUserId
  title := job.title
  description := job.description
  tradeId := job.tradeId
  status := .opened
  buildType := job.buildType
  jobSize := job.jobSize
  budget := job.budget
  timeline := job.timeline
  postalCode := job.postalCode
  publicPoint := job.centroid
  closedAt := none
  createdAt := now
  alertsMatchedAt := none
  closed_iff := closed_iff_opened
  marks := []
  marks_iff := iff_of_true rfl rfl

/-- How a job may end. -/
abbrev Ending : Type := { status : JobStatus // status ≠ .opened }

namespace Posting

/-- The job has been matched against saved searches. -/
def marked (p : Posting) : Bool := p.alertsMatchedAt.isSome

/-- `jobs::close`. -/
def close (poster : Uuid) (status : Ending) (now : Instant) (p : Posting) :
    Option (Unit × Posting) :=
  if p.postedByUserId = poster ∧ p.status = .opened then
    some ((), { p with
      status := status.1
      closedAt := some now
      closed_iff := iff_of_false nofun status.2 })
  else none

/-- `jobs::reopen`. -/
def reopen (poster : Uuid) (p : Posting) : Option (Unit × Posting) :=
  if p.postedByUserId = poster ∧ p.status = .closed then
    some ((), { p with
      status := .opened
      closedAt := none
      closed_iff := closed_iff_opened })
  else none

/-- `claim_unmatched_jobs`, of one row. -/
def claim (p : Posting) : Option (Unit × Posting) :=
  if p.alertsMatchedAt = none then some ((), p) else none

/-- The job, marked. -/
def mark (now : Instant) (p : Posting) : Posting :=
  { p with
    alertsMatchedAt := some now
    marks := p.marks ++ [p.status]
    marks_iff := iff_of_false (by simp) nofun }

/-- What a digest line needs. -/
def alertJob (tradeName : Uuid → Option Text) (p : Posting) : AlertJob where
  id := p.id
  title := p.title
  trade := p.tradeId.bind tradeName
  postalCode := p.postalCode
  timeline := p.timeline
  budgetMinCents := p.budgetMinCents
  budgetMaxCents := p.budgetMaxCents

end Posting

/-! ### The store -/

/-- **The database.** Accounts and trades are not written by any request here. -/
structure Db where
  clock : Instant := 0
  jobs : Table ℕ Uuid Posting := .empty
  searches : Table ℕ Uuid SavedSearch
  /-- `email_outbox`, as far as the pass writes it. -/
  outbox : Table ℕ Uuid Outgoing := .empty
  accounts : List Account
  /-- The name of a trade. -/
  tradeName : Uuid → Option Text := fun _ => none

/-- The database once `i` has committed. -/
def Db.commit (i : ℕ) (db : Db) : Db :=
  { db with
    jobs := db.jobs.commit i
    searches := db.searches.commit i
    outbox := db.outbox.commit i }

/-- The database once `i` has rolled back. -/
def Db.rollback (i : ℕ) (db : Db) : Db :=
  { db with
    jobs := db.jobs.rollback i
    searches := db.searches.rollback i
    outbox := db.outbox.rollback i }

/-- **The queries.** -/
inductive Query : Type → Type 1
  /-- Insert a job. -/
  | insert (id : Uuid) (job : NewJob) (now : Instant) : Query Bool
  /-- Close or cancel a job. -/
  | close (id poster : Uuid) (status : Ending) (now : Instant) : Query (Option Unit)
  /-- Put a closed job back on the board. -/
  | reopen (id poster : Uuid) : Query (Option Unit)
  /-- Claim a job that is not marked, unless somebody else holds it. -/
  | claim (id : Uuid) : Query (Option Unit)
  /-- Queue a digest. -/
  | enqueue (id : Uuid) (digest : Outgoing) : Query Bool
  /-- Record that a search was notified. -/
  | touch (id : Uuid) (now : Instant) : Query (Option Unit)
  /-- Mark a job. -/
  | mark (id : Uuid) (now : Instant) : Query (Option Unit)
  /-- Commit the open transaction. -/
  | commit : Query Unit
  /-- Roll the open transaction back. -/
  | rollback : Query Unit

/-- **What a query does**, on behalf of process `i`, whose transaction is open. -/
def Query.run {β : Type} : Query β → ℕ → Db → Option (β × Db)
  | .insert k job now, i, db =>
    (db.jobs.modify .tx i k (Table.inserting (job.row k now))).map
      fun p => (p.1, { db with jobs := p.2 })
  | .close k poster status now, i, db =>
    (db.jobs.modify .tx i k (Table.updating (Posting.close poster status now))).map
      fun p => (p.1, { db with jobs := p.2 })
  | .reopen k poster, i, db =>
    (db.jobs.modify .tx i k (Table.updating (Posting.reopen poster))).map
      fun p => (p.1, { db with jobs := p.2 })
  | .claim k, i, db =>
    (db.jobs.skipLocked .tx i k (Table.updating Posting.claim)).map
      fun p => (p.1, { db with jobs := p.2 })
  | .enqueue k digest, i, db =>
    (db.outbox.modify .tx i k (Table.inserting digest)).map
      fun p => (p.1, { db with outbox := p.2 })
  | .touch k now, i, db =>
    (db.searches.modify .tx i k (Table.updating fun s => some ((), s.touchNotified now))).map
      fun p => (p.1, { db with searches := p.2 })
  | .mark k now, i, db =>
    (db.jobs.modify .tx i k (Table.updating fun p => some ((), p.mark now))).map
      fun p => (p.1, { db with jobs := p.2 })
  | .commit, i, db => some ((), db.commit i)
  | .rollback, i, db => some ((), db.rollback i)

end Marketplace.Alerts
