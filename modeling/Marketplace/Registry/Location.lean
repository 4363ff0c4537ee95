import Marketplace.Registry.Store
import Marketplace.ReadCommitted.Faults
import Mathlib.Algebra.Group.Nat.Defs
import Mathlib.Data.List.Sort

/-!
# Where a contractor appears, and the geocoding worker

One program decides what is published of a place, `Marketplace.Registry.republish`. It reads
the row and writes the decision back, together with the precise point it has read, in two
statements: what stands between them is that its callers have written the row before.

What a geocoder is asked is put together from the listing and its licence, and so is the ZIP code
that is shown; the centroid that is published is the one of the code on the listing alone. These
readings are not the same one.

The worker claims jobs in a transaction of its own, and holds nothing while it reads an
address and waits for the provider. Its outcome is recorded with the point it brings in one
transaction, or on its own when it brings none.
-/

namespace Marketplace.Registry

open Audit (AuditEvent)
open ReadCommitted
open Search (Point)
open Directory (PublicPointSource)

/-! ### Programs -/

/-- A program of the registry. -/
abbrev Registering (α : Type) : Type 1 := Action ℕ Db Query AppError α

/-- A program, whose step number `fault` fails. -/
def Registering.failAt {α : Type} (fault : Option ℕ) (p : Registering α) : Registering α :=
  Action.failAt (.internal "the statement failed") fault p

/-- A transaction, whose step number `fault` fails; it is rolled back then. -/
def inTransaction {α : Type} (fault : Option ℕ) (body : Registering α) : Registering α :=
  .transaction .commit .rollback (body.failAt fault)

/-- The time. -/
def clock : Registering Instant := .look fun _ db => db.clock

/-- `audit::record`. -/
def record (event : AuditEvent) : Registering Unit := do
  let id ← Action.query (.record .tx event)
  match id with
  | some _ => pure ()
  | none => throw (.internal "duplicate key")

/-- An `UPDATE` of a listing, which fails when the row may not be stored. -/
def updateListing (m : Mode) (id : Uuid) (change : Change) : Registering Unit := do
  let updated ← Action.query (.listing m (.update id change))
  match updated with
  | some _ => pure ()
  | none => throw (.internal "a check constraint is violated")

variable (atlas : Atlas)

/-! ### Publishing -/

/-- What decides where a contractor appears. -/
structure LocationInputs where
  id : Uuid
  addressVisibility : AddressVisibility
  postalCode : Option Text
  isClaimed : Bool
  precisePoint : Option Point
  deriving DecidableEq

/-- `location_inputs`, of one row. -/
def Contractor.locationInputs (id : Uuid) (c : Contractor) : LocationInputs :=
  ⟨id, c.addressVisibility, c.postalCode, c.isClaimed, c.precisePoint⟩

/-- `location_inputs`. -/
def locationInputs (id : Uuid) : Registering (Option LocationInputs) :=
  .look fun j db => (db.contractors.row j id).map (Contractor.locationInputs id)

/-- **Where a listing appears**: at its exact point, when it publishes its address and that
has been geocoded, else at the centroid of its ZIP code, and nowhere when that has none. -/
def published (inputs : LocationInputs) : Publication :=
  match inputs.addressVisibility, inputs.precisePoint with
  | .publish, some p => .exact p
  | _, _ =>
    match inputs.postalCode.bind atlas.findZcta with
    | some region => .zipCentroid region
    | none => .absent

/-- **`republish`**: the published point, computed again from what is stored. -/
def republish (id : Uuid) : Registering PublicPointSource := do
  let inputs ← locationInputs id
  match inputs with
  | none => pure .none
  | some inputs => do
    updateListing .tx id (.location inputs.precisePoint (published atlas inputs))
    pure (published atlas inputs).publicPointSource

/-- `apply_geocode`. -/
def applyGeocode (id : Uuid) (p : Point) : Registering PublicPointSource := do
  let inputs ← locationInputs id
  match inputs with
  | none => pure .none
  | some _ => do
    -- written first, so that `republish` reads it back
    updateListing .tx id (.precisePoint p)
    republish atlas id

/-- `reapply`. -/
def reapply (id : Uuid) : Registering Unit := do
  let _ ← republish atlas id
  pure ()

/-! ### The address of a listing -/

/-- The parts of an address, trimmed, in one line; nothing when they are all blank. -/
def oneLine (parts : List Text) : Option Text :=
  let parts := (parts.map trim).filter fun part => !part.isEmpty
  if parts.isEmpty then none else some ((", ".toList).intercalate parts)

/-- **`geocodable_address`**, of one row: part by part, what the owner gave, or else what the
licence says. -/
def Contractor.geocodableAddress (license : Option License) (c : Contractor) : Option Text :=
  oneLine <| List.reduceOption
    [(c.ownerAddress.map OwnerAddress.line1) <|> (license.bind fun l => l.addressLine1),
      (c.ownerAddress.map OwnerAddress.city) <|> (license.bind fun l => l.city),
      (c.ownerAddress.map OwnerAddress.state) <|> (license.bind fun l => l.state),
      (c.ownerAddress.map OwnerAddress.postalCode) <|> (license.bind fun l => l.postalCode)]

/-- The licence of a listing, as process `j` sees it. -/
def Db.licenseOf (db : Db) (j : ℕ) (c : Contractor) : Option License :=
  c.licenseRecordId.bind fun l => db.licenses.row j l

/-- The address of a listing, as process `j` sees it. -/
def Db.addressFor (db : Db) (j : ℕ) (id : Uuid) : Option Text :=
  (db.contractors.row j id).bind fun c => c.geocodableAddress (db.licenseOf j c)

/-- `geocodable_address`. -/
def geocodableAddress (id : Uuid) : Registering (Option Text) :=
  .look fun j db => db.addressFor j id

/-! ### Queueing -/

/-- `enqueue`. -/
def enqueue (contractorId : Uuid) (addressHash : Digest) : Registering Bool := do
  let now ← clock
  let inserted ← Action.query (.job .tx (.enqueue contractorId addressHash now))
  pure inserted.isSome

/-- `relocate_after_address_change`. -/
def relocateAfterAddressChange (id : Uuid) : Registering Unit := do
  let address ← geocodableAddress id
  match address with
  | none => pure ()
  | some address => do
    let _ ← enqueue id (atlas.addressHash address)
    pure ()

/-! ### The worker -/

/-- The knobs of a worker. -/
structure WorkerConfig where
  /-- Jobs claimed per pass. -/
  batch : ℕ := 25
  /-- Attempts before a job is given up on. -/
  maxAttempts : ℕ := 5
  /-- The name of the worker. -/
  workerId : Text := "geocode-worker".toList
  /-- How long a claimed job may sit before it is assumed abandoned. -/
  staleAfterSecs : ℕ := 600
  deriving DecidableEq

/-- What a pass did. -/
structure Stats where
  claimed : ℕ := 0
  located : ℕ := 0
  notFound : ℕ := 0
  failed : ℕ := 0
  skipped : ℕ := 0
  requeued : ℕ := 0
  deriving DecidableEq

/-- Exponential backoff with a ceiling. -/
def backoffSecs (attempts : ℕ) : ℕ := min (30 * 2 ^ min attempts 10) 3600

/-- `requeue_stalled`: one statement on its own, over several rows. -/
def requeueStalled (staleAfterSecs : ℕ) : Registering ℕ :=
  .transaction .commit .rollback do
    let now ← clock
    let stalled ← Action.look fun j db => db.queue.scan j fun _ job => job.stalled staleAfterSecs now
    Action.ofProg (Prog.countEach stalled fun k =>
      .query (.job .tx (.requeue k staleAfterSecs now)) fun hit => .ret hit.isSome)

/-- The jobs that are due, as process `j` sees them, the longest due first. -/
def dueJobs (now : Instant) (j : ℕ) (db : Db) : List Uuid :=
  let nextAttemptAt := fun k => (db.queue.row j k).elim 0 GeocodeJob.nextAttemptAt
  (db.queue.scan j fun _ job => job.due now).insertionSort fun k l =>
    nextAttemptAt k ≤ nextAttemptAt l

/-- `claim`. -/
def claim (worker : Text) (limit : ℕ) : Registering (List Job) :=
  .transaction .commit .rollback do
    let now ← clock
    let due ← Action.look (dueJobs now)
    Action.ofProg (Prog.takeEach (fun k => .query (.job .tx (.claim k worker now)) .ret) limit due)

/-- What a geocoding attempt produced. -/
inductive Located
  /-- The provider has a match. -/
  | found (p : Point)
  /-- The provider has none. -/
  | notFound
  /-- There was no answer. -/
  | error (message : Text)

/-- `Geocoder::locate`, for process `i` at a time. -/
def Atlas.answer (i : ℕ) (now : Instant) (address : Text) : Located :=
  match atlas.outage i now address with
  | some message => .error message
  | none => match atlas.locate address with
    | some p => .found p
    | none => .notFound

/-- `mark_failed`. -/
def markFailed (id : Uuid) (error : Text) (backoffSecs maxAttempts : ℕ) :
    Registering JobStatus := do
  let now ← clock
  let status ← Action.query (.job .auto (.markFailed id error backoffSecs maxAttempts now))
  match status with
  | some (some status) => pure status
  | some none => throw (.internal "row not found")
  | none => throw (.internal "duplicate key")

/-- Record that a job succeeded, with the point it found. -/
def succeed (job : Job) (p : Point) : Registering PublicPointSource :=
  .transaction .commit .rollback do
    let precision ← applyGeocode atlas job.contractorId p
    let _ ← Action.query (.job .tx (.markSucceeded job.id))
    pure precision

/-- Work on one job, and say what became of it. -/
def attempt (config : WorkerConfig) (job : Job) (stats : Stats) : Registering Stats := do
  let address ← geocodableAddress job.contractorId
  match address with
  | none => do
    let _ ← Action.query
      (.job .auto (.markSkipped job.id "no address on the licence record".toList))
    pure { stats with skipped := stats.skipped + 1 }
  | some address => do
    -- nothing is held here, and this may take any time
    let located ← Action.look fun j db => atlas.answer j db.clock address
    match located with
    | .found p => do
      let _ ← succeed atlas job p
      pure { stats with located := stats.located + 1 }
    | .notFound => do
      let _ ← Action.query (.job .auto (.markSkipped job.id "no match from the geocoder".toList))
      pure { stats with notFound := stats.notFound + 1 }
    | .error message => do
      let _ ← markFailed job.id message (backoffSecs job.attempts) config.maxAttempts
      pure { stats with failed := stats.failed + 1 }

/-- Work on each of the jobs. -/
def attemptEach (config : WorkerConfig) : List Job → Stats → Registering Stats
  | [], stats => pure stats
  | job :: jobs, stats => do
    let stats ← attempt atlas config job stats
    attemptEach config jobs stats

/-- **`run_once`**: one pass over the queue. -/
def runOnce (config : WorkerConfig) : Registering Stats := do
  let requeued ← requeueStalled config.staleAfterSecs
  let jobs ← claim config.workerId config.batch
  attemptEach atlas config jobs { requeued := requeued, claimed := jobs.length }

end Marketplace.Registry
