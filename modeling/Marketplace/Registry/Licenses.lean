import Marketplace.Registry.Atlas
import Marketplace.ReadCommitted.Lasting

/-!
# Licences, their versions, and the runs that imported them

A licence is what the register says of it, with the runs that saw it first and last. What a run
has seen of a licence is kept as a version of it, once for each content. A licence that breaks a
condition on its columns is not stored: there is no such row (`Marketplace.Registry.License`), and
the statement that would write it is refused.
-/

namespace Marketplace.Registry

open ReadCommitted

/-! ### Licences -/

/-- Licence status, normalised. -/
inductive LicenseStatus
  | active
  | expired
  | suspended
  | inactive
  | unknown
  deriving DecidableEq

/-- `LicenseStatus::as_str`. -/
def LicenseStatus.asStr : LicenseStatus → Text
  | .active => "active".toList
  | .expired => "expired".toList
  | .suspended => "suspended".toList
  | .inactive => "inactive".toList
  | .unknown => "unknown".toList

/-- One normalised licence row, ready to be stored. -/
structure LicenseRecord where
  licenseNo : Text
  businessName : Text
  businessType : Option Text := none
  status : LicenseStatus
  statusRaw : Text
  issueDate : Option ℕ := none
  /-- The last day of the licence. -/
  expirationDate : Option ℕ := none
  classifications : List Text := []
  bondAmountCents : Option ℕ := none
  workersCompStatus : Option Text := none
  addressLine1 : Option Text := none
  city : Option Text := none
  state : Option Text := none
  postalCode : Option Text := none
  county : Option Text := none
  phone : Option Text := none
  /-- The source row, column by column. -/
  raw : List (Text × Text) := []
  /-- The digest that decides whether the row has changed. -/
  contentHash : Digest := []
  deriving DecidableEq

namespace LicenseRecord

/-- Every text of the record. -/
def texts (record : LicenseRecord) : List Text :=
  [record.licenseNo, record.businessName, record.statusRaw] ++ record.classifications ++
    List.reduceOption [record.businessType, record.workersCompStatus, record.addressLine1,
      record.city, record.state, record.postalCode, record.county, record.phone] ++
    record.raw.flatMap fun p => [p.1, p.2]

/-- The conditions on the columns of `license_records`. -/
def checks (record : LicenseRecord) : Bool :=
  record.texts.all isStorable && (!isBlank record.licenseNo &&
    decide (record.licenseNo.length ≤ 32)) && !isBlank record.businessName &&
    isWithin 120 record.businessType && isWithin 120 record.workersCompStatus &&
    isWithin 2 record.state && isWithin 10 record.postalCode && isWithin 32 record.phone

end LicenseRecord

/-- **A row of `license_records`.** -/
structure License extends LicenseRecord where
  firstRunId : Uuid
  lastRunId : Uuid
  lastSeenAt : Instant
  /-- It meets the conditions on its columns. -/
  checked : toLicenseRecord.checks = true
  deriving DecidableEq

namespace License

/-- The row of a record that a run has seen first. -/
def new (record : LicenseRecord) (h : record.checks = true) (runId : Uuid) (now : Instant) :
    License where
  toLicenseRecord := record
  firstRunId := runId
  lastRunId := runId
  lastSeenAt := now
  checked := h

/-- The row, seen again. -/
def touch (runId : Uuid) (now : Instant) (l : License) : License :=
  { l with lastRunId := runId, lastSeenAt := now }

/-- The record that an update leaves: the number is not one of the columns that it sets. -/
def merge (record : LicenseRecord) (l : License) : LicenseRecord :=
  { record with licenseNo := l.licenseNo }

/-- `update`, of a row. -/
def update (record : LicenseRecord) (runId : Uuid) (now : Instant) (l : License) :
    Option License :=
  if h : (l.merge record).checks = true then
    some
      { toLicenseRecord := l.merge record
        firstRunId := l.firstRunId
        lastRunId := runId
        lastSeenAt := now
        checked := h }
  else none

theorem update_eq {record : LicenseRecord} {runId : Uuid} {now : Instant} {l l' : License}
    (h : l.update record runId now = some l') :
    l'.toLicenseRecord = l.merge record ∧ l'.lastRunId = runId ∧ l'.lastSeenAt = now := by
  rw [update] at h
  split at h
  · cases h
    exact ⟨rfl, rfl, rfl⟩
  · cases h

end License

/-- The statements on `license_records`. -/
inductive LicenseStatement : Type → Type
  /-- Record that a licence was seen again, unchanged. -/
  | touch (id runId : Uuid) (now : Instant) : LicenseStatement (Option Unit)
  /-- Replace a licence; nothing is answered when it may not be stored. -/
  | update (id : Uuid) (record : LicenseRecord) (runId : Uuid) (now : Instant) :
      LicenseStatement (Option Bool)
  /-- Insert a licence; nothing is answered when it may not be stored. -/
  | insert (record : LicenseRecord) (runId : Uuid) (now : Instant) : LicenseStatement (Option Uuid)

/-- The table of licences. -/
abbrev Licenses : Type := Table ℕ Uuid License

namespace LicenseStatement

variable {β : Type}

/-- **What a statement does.** -/
def run (m : Mode) (i : ℕ) : LicenseStatement β → Licenses → Option (β × Licenses)
  | .touch k runId now, t =>
    t.modify m i k (Table.updating fun l => some ((), l.touch runId now))
  | .update k record runId now, t =>
    t.modify m i k (Table.checking (fun _ => true) fun l => l.update record runId now)
  | .insert record runId now, t =>
    if h : record.checks = true then
      t.insertFresh m i (fun l => l.licenseNo = record.licenseNo) (.new record h runId now)
    else some (none, t)

/-- The versions of a licence that a statement puts over one. -/
def writes : LicenseStatement β → Uuid → Option License → License → Prop
  | .touch id runId now, k, o, l' => k = id ∧ ∃ l, o = some l ∧ l' = l.touch runId now
  | .update id record runId now, k, o, l' =>
    k = id ∧ ∃ l, o = some l ∧ l.update record runId now = some l'
  | .insert record runId now, _, o, l' =>
    o = none ∧ ∃ h : record.checks = true, l' = .new record h runId now

variable {q : LicenseStatement β} {m : Mode} {i : ℕ} {t t' : Licenses} {b : β}

theorem written (h : q.run m i t = some (b, t')) :
    t.Written (fun m' k o l' => m' = m ∧ q.writes k o l') i t' := by
  cases q with
  | touch k runId now =>
    refine Table.written_of_modify h fun l' hl' => ?_
    obtain ⟨l, u, hrow, hl⟩ := Table.updating_cases hl'
    cases hl
    exact ⟨rfl, rfl, l, hrow, rfl⟩
  | update k record runId now =>
    refine Table.written_of_modify h fun l' hl' => ?_
    obtain ⟨l, hrow, -, hl⟩ := Table.checking_cases hl'
    exact ⟨rfl, rfl, l, hrow, hl⟩
  | insert record runId now =>
    rw [run] at h
    split at h
    · rename_i hchecks
      exact Table.written_of_insertFresh h ⟨rfl, rfl, hchecks, rfl⟩
    · cases h
      exact .keep _

end LicenseStatement

/-! ### Versions -/

/-- A row of `license_record_versions`, of a licence and a content. -/
structure Version where
  runId : Uuid
  raw : List (Text × Text)
  deriving DecidableEq

/-- The table of versions. -/
abbrev Versions : Type := Table ℕ (Uuid × Digest) Version

/-! ### Runs -/

/-- Where a set of rows came from. -/
inductive Source
  | cslbMasterList
  | cslbCountyList
  deriving DecidableEq

/-- How a run stands. -/
inductive RunStatus
  | running
  | succeeded
  | failed
  deriving DecidableEq

/-- Counters accumulated over one import. -/
structure RunCounts where
  read : ℕ := 0
  inserted : ℕ := 0
  updated : ℕ := 0
  unchanged : ℕ := 0
  skipped : ℕ := 0
  rejected : ℕ := 0
  deriving DecidableEq

/-- **A row of `license_import_runs`.** -/
structure ImportRun where
  source : Source
  sourceFileName : Text
  sourceFileSha256 : Digest
  snapshotDate : Option ℕ
  status : RunStatus := .running
  counts : RunCounts := {}
  errorText : Option String := none
  finishedAt : Option Instant := none
  /-- `license_import_runs_finished_iff_done`. -/
  finished_iff_done : status = .running ↔ finishedAt = none := by simp
  deriving DecidableEq

namespace ImportRun

/-- Two runs that succeeded with the same bytes. -/
def clashes (run other : ImportRun) : Bool :=
  run.status = .succeeded && other.status = .succeeded && run.source = other.source &&
    run.sourceFileSha256 = other.sourceFileSha256

/-- `finish_run`, of a row. -/
def finish (status : { s : RunStatus // s ≠ .running }) (counts : RunCounts)
    (errorText : Option String) (now : Instant) (run : ImportRun) : ImportRun :=
  { run with
    status := status.1
    counts := counts
    errorText := errorText
    finishedAt := some now
    finished_iff_done := iff_of_false status.2 nofun }

end ImportRun

/-- The statements on `license_import_runs`. -/
inductive RunStatement : Type → Type
  /-- Insert a run; nothing is answered when it may not be stored. -/
  | begin (run : ImportRun) : RunStatement (Option Uuid)
  /-- Finish a run; nothing is answered when it may not be. -/
  | finish (id : Uuid) (status : { s : RunStatus // s ≠ .running }) (counts : RunCounts)
      (errorText : Option String) (now : Instant) : RunStatement (Option (Option Unit))

/-- The table of runs. -/
abbrev Runs : Type := Table ℕ Uuid ImportRun

/-- **What a statement does.** -/
def RunStatement.run {β : Type} (m : Mode) (i : ℕ) : RunStatement β → Runs → Option (β × Runs)
  | .begin run, t =>
    if isBlank run.sourceFileName then some (none, t)
    else t.insertFresh m i run.clashes run
  | .finish k status counts errorText now, t =>
    t.modifyUnique m i k ImportRun.clashes
      (Table.updating fun run => some ((), run.finish status counts errorText now))

end Marketplace.Registry
