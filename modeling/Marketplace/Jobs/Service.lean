import Marketplace.Jobs.Store

/-!
# The requests about jobs and photographs

Posting, closing and reopening a job are transactions, and so is removing a photograph. Adding
one is not: it counts the photographs there are, has the picture decoded, puts the object in the
store, computes a place for the row and inserts it, and each of these steps stands on its own.

Cancelling a job deletes its photographs in two statements, of which the first reads their keys;
the objects go once the transaction is over, and a store that does not answer is passed over.

Any statement may fail; which one does is given with the request.
-/

namespace Marketplace.Jobs

open Alerts (NewJob Ending)
open Audit (AuditEvent)
open Board (JobStatus)
open ReadCommitted

/-- A program of the subsystem. -/
abbrev Handling (α : Type) : Type 1 := Action ℕ Db Query AppError α

/-- A program, whose step number `fault` fails. -/
def Handling.failAt {α : Type} (fault : Option ℕ) (p : Handling α) : Handling α :=
  Action.failAt (.internal "the statement failed") fault p

/-- A transaction, whose step number `fault` fails; it is rolled back then. -/
def inTransaction {α : Type} (fault : Option ℕ) (body : Handling α) : Handling α :=
  .transaction .commit .rollback (body.failAt fault)

variable (setting : Setting)

/-- The time. -/
def clock : Handling Instant := .look fun _ db => db.clock

/-- `audit::record`. -/
def record (m : Mode) (event : AuditEvent) : Handling Unit := do
  let id ← Action.query (.record m event)
  match id with
  | some _ => pure ()
  | none => throw (.internal "duplicate key")

/-! ### Jobs -/

/-- The trade that was picked. -/
def lookupTrade (tradeSlug : Option Text) : Except AppError (Option Uuid) :=
  match tradeSlug.map trim with
  | none => .ok none
  | some slug =>
    if slug.isEmpty then .ok none
    else match setting.tradeId slug with
      | some id => .ok (some id)
      | none => .error (.invalid ("Unknown trade \"" ++ String.ofList slug ++ "\"."))

/-- The event of a post. -/
def posted (poster id : Uuid) (job : NewJob) (requestId : Option Uuid) : AuditEvent :=
  (AuditEvent.new "job.posted" "jobs")
    |>.actor .user (some poster)
    |>.subject id
    |>.detail
      [("trade_id", job.tradeId.elim .null .id),
        ("build_type", .text job.buildType.asStr.toList),
        ("postal_code", .text job.postalCode),
        ("located", .flag job.centroid.isSome)]
    |>.request requestId

/-- The transaction of a post that was accepted. -/
def postRow (poster id : Uuid) (tradeSlug : Option Text) (job : NewJob) (requestId : Option Uuid) :
    Handling Uuid := do
  let now ← clock
  match lookupTrade setting tradeSlug with
  | .error e => throw e
  | .ok tradeId => do
    let region := setting.findZcta job.postalCode
    let job := { job with tradeId := tradeId, centroid := region.map Directory.Region.centroid }
    let inserted ← Action.query (.insertJob id job now)
    if inserted then do
      record .tx (posted poster id job requestId)
      let stored ← Action.look fun j db => db.jobs.row j id
      match stored with
      | some _ => pure id
      | none => throw (.internal "the job was inserted but could not be read back")
    else throw (.internal "a job insert violated a constraint")

/-- **`post`**, under a new identifier. -/
def post (fault : Option ℕ) (poster id : Uuid) (input : PostJob) (requestId : Option Uuid) :
    Handling Uuid :=
  match input.check poster with
  | .error e => throw e
  | .ok job => inTransaction fault (postRow setting poster id input.tradeSlug job requestId)

/-- `poster_of`. -/
def posterOf (id : Uuid) : Handling (Option Uuid) :=
  .look fun j db => (db.jobs.row j id).map fun r => r.postedByUserId

/-- Only for the poster of a job. -/
def asPoster {α : Type} (poster id : Uuid) (p : Handling α) : Handling α := do
  let owner ← posterOf id
  if owner = some poster then p else throw .notFound

/-- The transaction of a reopening, once it is known that the caller may. -/
def reopenRow (poster id : Uuid) (requestId : Option Uuid) : Handling Unit := do
  let changed ← Action.query (.reopenJob id poster)
  if changed.isSome then
    record .tx <| (AuditEvent.new "job.reopened" "jobs")
      |>.actor .user (some poster)
      |>.subject id
      |>.request requestId
  else throw (.conflict
    ("Only a closed job can be reopened. A cancelled job had its photos " ++
      "deleted, so it cannot be put back — post it again instead."))

/-- **`reopen`**. -/
def reopen (fault : Option ℕ) (poster id : Uuid) (requestId : Option Uuid) : Handling Unit :=
  inTransaction fault (asPoster poster id (reopenRow poster id requestId))

/-- The photographs of an owner, as process `j` sees them. -/
def photosOf (g : Gallery) (ownerId : Uuid) (j : ℕ) (db : Db) : List Uuid :=
  (db.photos g).scan j fun _ photo => photo.ownerId = ownerId

/-- `delete_all_for_job`: the photographs it sees, one by one. -/
def deleteAllForJob (id : Uuid) : Handling Unit := do
  let ids ← Action.look (photosOf .job id)
  let _ ← Action.ofProg (Prog.countEach ids fun k =>
    .query (.deletePhoto .job id k) fun hit => .ret hit.isSome)
  pure ()

/-- Take the photographs of a job down, when it is cancelled. -/
def takeDown (id : Uuid) (status : JobStatus) : Handling (List Key) :=
  if status = .cancelled then do
    let keys ← Action.query (.keysForJob id)
    deleteAllForJob id
    pure keys
  else pure []

/-- The spelling of a status. -/
def statusStr : JobStatus → Text
  | .opened => "open".toList
  | .closed => "closed".toList
  | .cancelled => "cancelled".toList

/-- The event of a close. -/
def closed (poster id : Uuid) (status : JobStatus) (photosRemoved : ℕ) (requestId : Option Uuid) :
    AuditEvent :=
  (AuditEvent.new "job.closed" "jobs")
    |>.actor .user (some poster)
    |>.subject id
    |>.detail [("status", .text (statusStr status)), ("photos_removed", .count photosRemoved)]
    |>.request requestId

/-- The transaction of a close, once it is known that the caller may; it gives the keys of what
is to be removed. -/
def closeRow (poster id : Uuid) (status : Ending) (requestId : Option Uuid) :
    Handling (List Key) := do
  let now ← clock
  let changed ← Action.query (.closeJob id poster status now)
  if changed.isSome then do
    -- the keys are read before the rows are deleted
    let orphaned ← takeDown id status.1
    record .tx (closed poster id status.1 orphaned.length requestId)
    pure orphaned
  else throw (.conflict "That job is no longer open.")

/-- Ask the store to remove each of the objects. -/
def removeEach (keys : List Key) : Handling Unit := do
  let _ ← Action.ofProg (Prog.countEach keys fun key => .query (.removeObject key) .ret)
  pure ()

/-- **`close`**. -/
def close (fault : Option ℕ) (poster id : Uuid) (status : JobStatus) (requestId : Option Uuid) :
    Handling Unit :=
  if h : status = .opened then throw (.invalid "A job can only be closed or cancelled.")
  else do
    let orphaned ← inTransaction fault (asPoster poster id (closeRow poster id ⟨status, h⟩ requestId))
    removeEach orphaned

/-! ### Photographs -/

/-- `COALESCE(MAX(position) + 1, 0)`, as process `j` sees it. -/
def nextPosition (g : Gallery) (ownerId : Uuid) (j : ℕ) (db : Db) : ℕ :=
  (((db.photos g).rows j).filter fun photo => photo.ownerId = ownerId).foldr
    (fun photo n => max (photo.position + 1) n) 0

/-- The `insert` of `job_photos`, and of `contractor_photos`: the place is computed from the
snapshot of the statement, and checked when the row goes in. -/
def insertPhoto (g : Gallery) (id : Uuid) (photo : NewPhoto) : Handling Unit := do
  let position ← Action.look (nextPosition g photo.ownerId)
  let inserted ← Action.query (.insertPhoto g id { photo with position := position })
  if inserted then pure () else throw (.internal "duplicate key")

/-- A photograph that was added. -/
structure Added where
  id : Uuid
  key : Key
  width : ℕ
  height : ℕ
  deriving DecidableEq

/-- `Store::put`. -/
def put (key : Key) : Handling Unit := do
  let stored ← Action.query (.putObject key)
  if stored then pure () else throw (.internal "the object store did not answer")

/-- How a photograph is added, once it is known that the caller may: `attach_photo` and
`add_work_photo` do this alike. -/
def addPhoto (g : Gallery) (ownerId id : Uuid) (bytes : List UInt8) (full : AppError)
    (event : Normalised → AuditEvent) : Handling Added := do
  let existing ← Action.look fun j db => (photosOf g ownerId j db).length
  if existing ≥ g.cap then throw full
  else match setting.normalise bytes with
    | .error e => throw e
    | .ok normalised => do
      let key := g.key ownerId id
      put key
      insertPhoto g id
        { ownerId := ownerId
          storageKey := key
          byteSize := normalised.byteSize
          width := normalised.width
          height := normalised.height }
      record .auto (event normalised)
      pure ⟨id, key, normalised.width, normalised.height⟩

/-- **`attach_photo`**, under a new identifier. -/
def attachPhoto (fault : Option ℕ) (poster jobId id : Uuid) (bytes : List UInt8)
    (requestId : Option Uuid) : Handling Added :=
  Handling.failAt fault <| asPoster poster jobId <|
    addPhoto setting .job jobId id bytes (.invalid "A job can have up to 8 photos.")
      fun normalised => (AuditEvent.new "job.photo_added" "job_photos")
        |>.actor .user (some poster)
        |>.subject id
        |>.detail [("job_id", .id jobId), ("bytes", .count normalised.byteSize)]
        |>.request requestId

/-- How a photograph is removed, once it is known that the caller may: the row in a transaction,
then the object. -/
def removeRow (g : Gallery) (ownerId id : Uuid) (event : AuditEvent) : Handling Key := do
  let key ← Action.query (.deletePhoto g ownerId id)
  match key with
  | none => throw .notFound
  | some key => do
    record .tx event
    pure key

/-- **`remove_photo`**. -/
def removePhoto (fault : Option ℕ) (poster jobId id : Uuid) (requestId : Option Uuid) :
    Handling Unit := do
  let key ← inTransaction fault <| asPoster poster jobId <| removeRow .job jobId id <|
    (AuditEvent.new "job.photo_removed" "job_photos")
      |>.actor .user (some poster)
      |>.subject id
      |>.detail [("job_id", .id jobId)]
      |>.request requestId
  removeEach [key]

/-- `owned_listing`: only for the owner of a listing. -/
def ownedListing {α : Type} (userId contractorId : Uuid) (p : Handling α) : Handling α := do
  let owned ← Action.look fun _ _ => setting.claimedBy userId
  if owned = some contractorId then p else throw .notFound

/-- **`add_work_photo`**, under a new identifier. -/
def addWorkPhoto (fault : Option ℕ) (userId contractorId id : Uuid) (bytes : List UInt8)
    (requestId : Option Uuid) : Handling Added :=
  Handling.failAt fault <| ownedListing setting userId contractorId <|
    addPhoto setting .contractor contractorId id bytes
      (.invalid "A listing can have up to 12 work photos.")
      fun normalised => (AuditEvent.new "contractor.work_photo_added" "contractor_photos")
        |>.actor .user (some userId)
        |>.subject id
        |>.detail [("contractor_id", .id contractorId), ("bytes", .count normalised.byteSize)]
        |>.request requestId

/-- **`remove_work_photo`**. -/
def removeWorkPhoto (fault : Option ℕ) (userId contractorId id : Uuid) (requestId : Option Uuid) :
    Handling Unit := do
  let key ← inTransaction fault <| ownedListing setting userId contractorId <|
    removeRow .contractor contractorId id <|
      (AuditEvent.new "contractor.work_photo_removed" "contractor_photos")
        |>.actor .user (some userId)
        |>.subject id
        |>.detail [("contractor_id", .id contractorId)]
        |>.request requestId
  removeEach [key]

/-! ### The system -/

/-- What a process may be asked to do. -/
inductive Request
  /-- Post a job. -/
  | post (poster id : Uuid) (input : PostJob)
  /-- Close or cancel a job. -/
  | close (poster id : Uuid) (status : JobStatus)
  /-- Reopen a job. -/
  | reopen (poster id : Uuid)
  /-- Add a photograph to a job. -/
  | attachPhoto (poster jobId id : Uuid) (bytes : List UInt8)
  /-- Remove a photograph from a job. -/
  | removePhoto (poster jobId id : Uuid)
  /-- Add a photograph to a listing. -/
  | addWorkPhoto (userId contractorId id : Uuid) (bytes : List UInt8)
  /-- Remove a photograph from a listing. -/
  | removeWorkPhoto (userId contractorId id : Uuid)
  deriving DecidableEq

/-- **A request**, with its identifier, and the number of the step that fails, if one does. -/
structure Call where
  request : Request
  requestId : Option Uuid := none
  fault : Option ℕ := none
  deriving DecidableEq

/-- What is answered. -/
inductive Response
  /-- It is done. -/
  | done
  /-- The job is posted. -/
  | posted (id : Uuid)
  /-- The photograph is added. -/
  | added (photo : Added)
  deriving DecidableEq

/-- The program of a request. -/
def serve (call : Call) : Handling Response :=
  match call.request with
  | .post poster id input => do
    let id ← post setting call.fault poster id input call.requestId
    pure (.posted id)
  | .close poster id status => do
    close call.fault poster id status call.requestId
    pure .done
  | .reopen poster id => do
    reopen call.fault poster id call.requestId
    pure .done
  | .attachPhoto poster jobId id bytes => do
    let photo ← attachPhoto setting call.fault poster jobId id bytes call.requestId
    pure (.added photo)
  | .removePhoto poster jobId id => do
    removePhoto call.fault poster jobId id call.requestId
    pure .done
  | .addWorkPhoto userId contractorId id bytes => do
    let photo ← addWorkPhoto setting call.fault userId contractorId id bytes call.requestId
    pure (.added photo)
  | .removeWorkPhoto userId contractorId id => do
    removeWorkPhoto setting call.fault userId contractorId id call.requestId
    pure .done

/-- **The subsystem.** -/
def jobSystem : System ℕ Db Call (Except AppError Response) Query where
  run := Query.run setting
  rollback := .rollback
  tick := fun n db => { db with clock := db.clock + n }
  program := fun _ call => (serve setting call).run

end Marketplace.Jobs
