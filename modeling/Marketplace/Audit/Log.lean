import Marketplace.Auth.Text

/-!
# The audit log

One event is a record of who did what to which row, and is built up from what it cannot do
without, in the words of its action and of the table it is about. Its detail is a JSON object of
few kinds of values.
-/

namespace Marketplace.Audit

/-- Who performed the action. -/
inductive ActorKind
  | user
  | system
  | importer
  | admin
  deriving DecidableEq

/-- A value in the detail of an event. -/
inductive Datum
  | null
  | flag (value : Bool)
  | count (value : ℕ)
  | text (value : Text)
  | id (value : Uuid)
  deriving DecidableEq

/-- One event, ready to be written. -/
structure AuditEvent where
  actorUserId : Option Uuid
  actorKind : ActorKind
  action : String
  subjectTable : String
  subjectId : Option Uuid
  data : List (String × Datum)
  requestId : Option Uuid
  deriving DecidableEq

namespace AuditEvent

/-- `AuditEvent::new`. -/
def new (action subjectTable : String) : AuditEvent where
  actorUserId := none
  actorKind := .user
  action := action
  subjectTable := subjectTable
  subjectId := none
  data := []
  requestId := none

/-- `AuditEvent::actor`. -/
def actor (event : AuditEvent) (kind : ActorKind) (userId : Option Uuid) : AuditEvent :=
  { event with actorKind := kind, actorUserId := userId }

/-- `AuditEvent::subject`. -/
def subject (event : AuditEvent) (id : Uuid) : AuditEvent := { event with subjectId := some id }

/-- `AuditEvent::data`. -/
def detail (event : AuditEvent) (data : List (String × Datum)) : AuditEvent :=
  { event with data := data }

/-- `AuditEvent::request_id`. -/
def request (event : AuditEvent) (requestId : Option Uuid) : AuditEvent :=
  { event with requestId := requestId }

end AuditEvent

end Marketplace.Audit
