import Marketplace.Registry.Badge
import Marketplace.Registry.Columns

/-!
# Importing licences

A run reads the rows of a file in batches, and writes each batch in one transaction: each licence,
its version, its listing with the trades of the register, where that appears, and its badge. A
licence whose content has not changed is only touched. A row that is not a licence is counted as
rejected; anything else that goes wrong ends the run, which is then recorded as failed.

The trades of the register are also derived once more, over all listings, by a statement of their
own (`Marketplace.Registry.rederiveCslbTrades`), when the table of trades has changed.
-/

namespace Marketplace.Registry

open ReadCommitted

variable (atlas : Atlas)

/-! ### Licences -/

/-- What happened to one licence. -/
inductive UpsertOutcome
  | inserted
  | updated
  | unchanged
  deriving DecidableEq

/-- A licence that is stored. -/
structure StoredLicense where
  id : Uuid
  outcome : UpsertOutcome
  deriving DecidableEq

/-- The licence of a number, with its content, as process `j` sees it. -/
def Db.licenseNumbered (db : Db) (j : ℕ) (licenseNo : Text) : Option (Uuid × Digest) :=
  (db.licenses.scan j fun _ l => l.licenseNo = licenseNo).head?.bind fun id =>
    (db.licenses.row j id).map fun l => (id, l.contentHash)

/-- Append a version of a licence, unless there is one of this content. -/
def appendVersion (runId id : Uuid) (record : LicenseRecord) : Registering Unit := do
  let _ ← Action.query (.addVersion .tx id record.contentHash ⟨runId, record.raw⟩)
  pure ()

/-- **`licenses::upsert`**. -/
def upsert (runId : Uuid) (record : LicenseRecord) : Registering StoredLicense := do
  let now ← clock
  let existing ← Action.look fun j db => db.licenseNumbered j record.licenseNo
  match existing with
  | some (id, hash) =>
    if hash = record.contentHash then do
      let _ ← Action.query (.license .tx (.touch id runId now))
      pure ⟨id, .unchanged⟩
    else do
      let updated ← Action.query (.license .tx (.update id record runId now))
      match updated with
      | some _ => do
        appendVersion runId id record
        pure ⟨id, .updated⟩
      | none => throw (.internal "a check constraint is violated")
  | none => do
    let inserted ← Action.query (.license .tx (.insert record runId now))
    match inserted with
    | some id => do
      appendVersion runId id record
      pure ⟨id, .inserted⟩
    | none => throw (.internal "a constraint is violated")

/-! ### Listings -/

/-- What became of the listing of a licence. -/
structure UpsertResult where
  id : Uuid
  created : Bool
  /-- The ZIP code moved. -/
  locationChanged : Bool
  deriving DecidableEq

/-- The listing of a licence, as process `j` sees it. -/
def Db.listingOf (db : Db) (j : ℕ) (licenseRecordId : Uuid) : Option (Uuid × Contractor) :=
  (db.contractors.scan j fun _ c => c.licenseRecordId = some licenseRecordId).head?.bind fun id =>
    (db.contractors.row j id).map fun c => (id, c)

/-- Refresh the name of a listing, which is its owner's once there is one. -/
def refreshName (id : Uuid) (isClaimed : Bool) (name : Text) : Registering Unit :=
  if isClaimed then pure () else updateListing .tx id (.displayName name)

/-- **`upsert_from_license`**: create or refresh a listing from licence data. -/
def upsertFromLicense (facts : SourceFacts) : Registering UpsertResult := do
  let existing ← Action.look fun j db =>
    (db.listingOf j facts.licenseRecordId).map fun p => (p.1, p.2.postalCode, p.2.isClaimed)
  match existing with
  | none => do
    let inserted ← Action.query (.listing .tx (.insert facts))
    match inserted with
    | some id => pure ⟨id, true, facts.postalCode.isSome⟩
    | none => throw (.internal "a constraint is violated")
  | some (id, postalCode, isClaimed) => do
    refreshName id isClaimed facts.displayName
    if postalCode = facts.postalCode then pure ⟨id, false, false⟩
    else do
      updateListing .tx id (.postalCode facts.postalCode facts.regionId)
      pure ⟨id, false, true⟩

/-- `slugify`, of what is left, after what was kept. -/
def slugifyFrom (pendingSeparator : Bool) (slug : Text) : Text → Text
  | [] => slug
  | c :: cs =>
    if c.isAlphanum then
      let slug := if pendingSeparator && !slug.isEmpty then slug ++ ['-'] else slug
      slugifyFrom false (slug ++ [c.toLower]) cs
    else slugifyFrom true slug cs

/-- `slugify`. -/
def slugify (value : Text) : Text := slugifyFrom false [] value

/-- The slug of a new listing. -/
def slugFor (id : Uuid) (record : LicenseRecord) : Text :=
  let slugBase := slugify record.businessName
  let slugSuffix := slugify record.licenseNo
  match slugBase.isEmpty, slugSuffix.isEmpty with
  | true, true => "contractor-".toList ++ atlas.simpleUuid id
  | true, false => "contractor-".toList ++ slugSuffix
  | false, true => slugBase ++ '-' :: atlas.simpleUuid id
  | false, false => slugBase ++ '-' :: slugSuffix

/-- What the importer knows of the listing of a licence that it has stored. -/
def sourceFacts (id : Uuid) (record : LicenseRecord) : SourceFacts where
  licenseRecordId := id
  displayName := record.businessName
  slug := slugFor atlas id record
  postalCode := record.postalCode
  regionId := (record.postalCode.bind atlas.findZcta).map Directory.Region.id

/-! ### Trades -/

/-- The trade of a code, once it is normalised; of trades with the same code, the last one. -/
def tradeFor (code : Text) : Option Uuid :=
  (atlas.trades.filterMap fun trade =>
    trade.cslbClassification.map fun c => (normaliseClassification c, trade.id)).reverse.lookup code

/-- The trades of a licence; a code without one is passed over. -/
def tradesOf (classifications : List Text) : List Uuid :=
  classifications.filterMap fun code => tradeFor atlas (normaliseClassification code)

/-- The trades of the register that a listing has, as process `j` sees them. -/
def cslbTrades (contractorId : Uuid) (j : ℕ) (db : Db) : List TradeKey :=
  db.trades.scan j fun key _ => key.contractorId = contractorId && key.source = .cslb

/-- Delete trades, one by one; the answer is how many there were. -/
def dropTrades (keys : List TradeKey) : Registering ℕ :=
  Action.ofProg (Prog.countEach keys fun key => .query (.trade .tx (.drop key)) .ret)

/-- Insert trades, one by one; the answer is how many were new. -/
def addTrades (keys : List TradeKey) : Registering ℕ :=
  Action.ofProg (Prog.countEach keys fun key => .query (.trade .tx (.add key)) .ret)

/-- **`replace_cslb_trades`**. -/
def replaceCslbTrades (contractorId : Uuid) (tradeIds : List Uuid) : Registering Unit := do
  let old ← Action.look (cslbTrades contractorId)
  let _ ← dropTrades old
  let _ ← addTrades (tradeIds.map fun id => ⟨contractorId, id, .cslb⟩)
  pure ()

/-- `DERIVED`: the trades that the licences give the listings, as process `j` sees them. -/
def derivedTrades (j : ℕ) (db : Db) : List TradeKey :=
  ((db.contractors.scan j fun _ _ => true).flatMap fun id =>
    ((db.contractors.row j id).bind (db.licenseOf j)).elim [] fun l =>
      l.classifications.flatMap fun code =>
        (atlas.trades.filter fun trade => trade.cslbClassification.any fun c =>
          normaliseClassification c = normaliseClassification code).map
            fun trade => ⟨id, trade.id, .cslb⟩).dedup

/-- **`rederive_cslb_trades`**: two statements, each on its own, over several rows. -/
def rederiveCslbTrades : Registering (ℕ × ℕ) := do
  let added ← Action.transaction .commit .rollback do
    let derived ← Action.look (derivedTrades atlas)
    addTrades derived
  let removed ← Action.transaction .commit .rollback do
    let stale ← Action.look fun j db => db.trades.scan j fun key _ =>
      key.source = .cslb && !(derivedTrades atlas j db).contains key
    dropTrades stale
  pure (added, removed)

/-! ### One batch -/

/-- Publish a point for a listing whose ZIP code is new, and queue it for geocoding. -/
def place (upserted : UpsertResult) : Registering Unit :=
  if upserted.created || upserted.locationChanged then do
    let _ ← republish atlas upserted.id
    relocateAfterAddressChange atlas upserted.id
  else pure ()

/-- What follows from a licence that has changed. -/
def project (id : Uuid) (record : LicenseRecord) : Registering Unit := do
  let upserted ← upsertFromLicense (sourceFacts atlas id record)
  replaceCslbTrades upserted.id (tradesOf atlas record.classifications)
  place atlas upserted
  let _ ← recompute atlas upserted.id
  pure ()

/-- The counts, with one licence more. -/
def RunCounts.add (counts : RunCounts) : UpsertOutcome → RunCounts
  | .inserted => { counts with inserted := counts.inserted + 1 }
  | .updated => { counts with updated := counts.updated + 1 }
  | .unchanged => { counts with unchanged := counts.unchanged + 1 }

/-- Import one licence. -/
def importRecord (runId : Uuid) (record : LicenseRecord) (counts : RunCounts) :
    Registering RunCounts := do
  let stored ← upsert runId record
  -- an unchanged licence needs no more
  if stored.outcome = .unchanged then pure (counts.add .unchanged)
  else do
    project atlas stored.id record
    pure (counts.add stored.outcome)

/-- Import each of the licences. -/
def importEach (runId : Uuid) : List LicenseRecord → RunCounts → Registering RunCounts
  | [], counts => pure counts
  | record :: batch, counts => do
    let counts ← importRecord atlas runId record counts
    importEach runId batch counts

/-- **`flush`**: write one batch in a single transaction, unless the run is dry. -/
def flush (runId : Uuid) (dryRun : Bool) (batch : List LicenseRecord) (counts : RunCounts) :
    Registering RunCounts :=
  if dryRun then pure { counts with inserted := counts.inserted + batch.length }
  else .transaction .commit .rollback (importEach atlas runId batch counts)

/-! ### One file -/

/-- A licence file. A row that could not be read is `none`. -/
structure LicenseFile where
  name : Text
  sha256 : Digest
  headers : List Text
  rows : List (Option (List Text))
  deriving DecidableEq

/-- The options of a run. -/
structure ImportOptions where
  source : Source
  file : LicenseFile
  county : Option Text := none
  snapshotDate : Option ℕ := none
  batchSize : ℕ := 500
  dryRun : Bool := false
  deriving DecidableEq

/-- A county, as it is compared. -/
def normaliseCounty (county : Text) : Text := asciiUpper (trim county)

/-- The row is of another county than the one that is asked for. -/
def isElsewhere (columns : ColumnMap) (county : Option Text) (row : List Text) : Bool :=
  (county.map normaliseCounty).any fun county =>
    ((columns.get row .county).map normaliseCounty).getD [] ≠ county

/-- **`import_rows`**: the rows that are left, with the batch that has been gathered. -/
def importRows (runId : Uuid) (options : ImportOptions) (columns : ColumnMap) :
    List (Option (List Text)) → List LicenseRecord → RunCounts → Registering RunCounts
  | [], batch, counts =>
    if batch.isEmpty then pure counts else flush atlas runId options.dryRun batch counts
  | none :: rows, batch, counts =>
    importRows runId options columns rows batch { counts with rejected := counts.rejected + 1 }
  | some row :: rows, batch, counts =>
    let counts := { counts with read := counts.read + 1 }
    if isElsewhere columns options.county row then
      importRows runId options columns rows batch { counts with skipped := counts.skipped + 1 }
    else
      let (batch, counts) := match buildRecord atlas columns row with
        | .ok record => (batch ++ [record], counts)
        | .error _ => (batch, { counts with rejected := counts.rejected + 1 })
      if batch.length ≥ options.batchSize then do
        let counts ← flush atlas runId options.dryRun batch counts
        importRows runId options columns rows [] counts
      else importRows runId options columns rows batch counts

/-! ### One run -/

/-- `begin_run`: open a run, unless the bytes have been imported. -/
def beginRun (options : ImportOptions) : Registering Uuid := do
  let already ← Action.look fun j db => (db.runs.scan j fun _ run =>
    run.source = options.source && run.sourceFileSha256 = options.file.sha256 &&
      run.status = .succeeded).head?
  match already with
  | some id => throw (.conflict
      ("these exact bytes were already imported successfully by run " ++
        String.ofList (atlas.formatUuid id)))
  | none => do
    let begun ← Action.query <| .importRun .auto <| .begin
      { source := options.source
        sourceFileName := options.file.name
        sourceFileSha256 := options.file.sha256
        snapshotDate := options.snapshotDate }
    match begun with
    | some id => pure id
    | none => throw (.internal "a check constraint is violated")

/-- `finish_run`. -/
def finishRun (runId : Uuid) (status : { s : RunStatus // s ≠ .running }) (counts : RunCounts)
    (errorText : Option String) : Registering Unit := do
  let now ← clock
  let finished ← Action.query (.importRun .auto (.finish runId status counts errorText now))
  match finished with
  | some _ => pure ()
  | none => throw (.internal "duplicate key")

/-- `AppError::to_string`. -/
def errorText : AppError → String
  | .invalid message => message
  | .unauthenticated => "authentication required"
  | .forbidden => "forbidden"
  | .notFound => "resource not found"
  | .conflict message => message
  | .internal _ => "internal error"

/-- Record how a run ended. -/
def settleRun (runId : Uuid) (dryRun : Bool) (outcome : Except AppError RunCounts) :
    Registering RunCounts :=
  match outcome with
  | .ok counts => do
    -- a dry run must not occupy the place of these bytes
    if dryRun then do
      finishRun runId ⟨.failed, nofun⟩ counts (some "dry run: nothing was written")
      pure counts
    else do
      finishRun runId ⟨.succeeded, nofun⟩ counts none
      pure counts
  | .error e => do
    finishRun runId ⟨.failed, nofun⟩ {} (some (errorText e))
    throw e

/-- **`run`**: import a file. -/
def runImport (options : ImportOptions) : Registering RunCounts :=
  match ColumnMap.build atlas options.file.headers with
  | .error e => throw e
  | .ok columns =>
    if options.county.isSome && (columns.columns .county).isNone then
      throw (.invalid ("a county filter was requested but the file has no county column; " ++
        "re-run without --county to import every row"))
    else do
      let runId ← beginRun atlas options
      let outcome ← Action.ofProg
        (importRows atlas runId options columns options.file.rows [] {}).run
      settleRun runId options.dryRun outcome

end Marketplace.Registry
