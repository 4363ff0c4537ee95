import Marketplace.ReadCommitted.Ledger
import Marketplace.Registry.Footprint

/-!
# The counts of an import

A run keeps counts while it reads a file, and writes them down when it is over. What they are
held against here is, for a run that completes, the file: each of its rows is malformed, or of
another county, or without something mandatory, or imported (`Marketplace.Registry.rowFate`). For
a run that fails partway, it is the *ledger* of the run: what the statements of its transactions
have written, entered when they are committed (`Marketplace.Registry.Query.book`).

The counts of a run that completes put each row under one outcome, and yet do not add up: a
malformed row is rejected, but not read. The counts of a run that fails are all zero, so they are
those of what was committed exactly where nothing was.
-/

namespace Marketplace.Registry

open ReadCommitted

variable (atlas : Atlas)

/-! ### Rows -/

/-- What becomes of a row. -/
inductive RowFate
  /-- It could not be read. -/
  | malformed
  /-- It is of another county. -/
  | elsewhere
  /-- Something mandatory is missing from it. -/
  | incomplete
  /-- It is a licence. -/
  | importable
  deriving DecidableEq

/-- **What becomes of a row**, where some county may be asked for. -/
def rowFate (columns : ColumnMap) (county : Option Text) : Option (List Text) → RowFate
  | none => .malformed
  | some row =>
    if isElsewhere columns county row then .elsewhere
    else match buildRecord atlas columns row with
      | .ok _ => .importable
      | .error _ => .incomplete

/-- The number of rows of a fate. -/
def rowsOf (columns : ColumnMap) (county : Option Text) (rows : List (Option (List Text)))
    (fate : RowFate) : ℕ :=
  (rows.map (rowFate atlas columns county)).count fate

namespace RunCounts

/-- The licences that were imported, whatever that changed. -/
def written (counts : RunCounts) : ℕ := counts.inserted + counts.updated + counts.unchanged

/-- The counts add up. -/
def Balanced (counts : RunCounts) : Prop :=
  counts.read =
    counts.inserted + counts.updated + counts.unchanged + counts.skipped + counts.rejected

instance (counts : RunCounts) : Decidable counts.Balanced :=
  inferInstanceAs (Decidable (_ = _))

/-- The counts of two sets of rows together. -/
def plus (counts more : RunCounts) : RunCounts where
  read := counts.read + more.read
  inserted := counts.inserted + more.inserted
  updated := counts.updated + more.updated
  unchanged := counts.unchanged + more.unchanged
  skipped := counts.skipped + more.skipped
  rejected := counts.rejected + more.rejected

/-- The counts, with one row more, that was read and imported. -/
def enter (counts : RunCounts) (outcome : UpsertOutcome) : RunCounts :=
  { counts.add outcome with read := counts.read + 1 }

@[simp] theorem read_enter (counts : RunCounts) (outcome : UpsertOutcome) :
    (counts.enter outcome).read = counts.read + 1 := rfl

/-- The counts `later` are the counts `counts`, with `n` licences more. -/
structure Wrote (n : ℕ) (counts later : RunCounts) : Prop where
  written : later.written = counts.written + n
  read : later.read = counts.read
  skipped : later.skipped = counts.skipped
  rejected : later.rejected = counts.rejected

/-- One licence more is counted once. -/
theorem wrote_add (counts : RunCounts) (outcome : UpsertOutcome) :
    Wrote 1 counts (counts.add outcome) := by
  cases outcome with
  | inserted => exact ⟨by simp only [written, add]; omega, rfl, rfl, rfl⟩
  | updated => exact ⟨by simp only [written, add]; omega, rfl, rfl, rfl⟩
  | unchanged => exact ⟨by simp only [written, add]; omega, rfl, rfl, rfl⟩

theorem Wrote.trans {n m : ℕ} {counts mid later : RunCounts} (h : Wrote n counts mid)
    (h' : Wrote m mid later) : Wrote (n + m) counts later where
  written := by rw [h'.written, h.written, Nat.add_assoc]
  read := h'.read.trans h.read
  skipped := h'.skipped.trans h.skipped
  rejected := h'.rejected.trans h.rejected

end RunCounts

/-- **Each row is under one outcome**: the counts `later` are the counts `counts`, with a batch of
licences and some rows more. -/
structure CountedFrom (columns : ColumnMap) (county : Option Text) (counts : RunCounts)
    (batch : ℕ) (rows : List (Option (List Text))) (later : RunCounts) : Prop where
  read : later.read + rowsOf atlas columns county rows .malformed = counts.read + rows.length
  written : later.written = counts.written + batch + rowsOf atlas columns county rows .importable
  skipped : later.skipped = counts.skipped + rowsOf atlas columns county rows .elsewhere
  rejected : later.rejected = counts.rejected + rowsOf atlas columns county rows .malformed +
    rowsOf atlas columns county rows .incomplete

variable {atlas} {columns : ColumnMap} {county : Option Text}

theorem rowsOf_cons (row : Option (List Text)) (rows : List (Option (List Text)))
    (fate : RowFate) :
    rowsOf atlas columns county (row :: rows) fate =
      rowsOf atlas columns county rows fate +
        if rowFate atlas columns county row = fate then 1 else 0 := by
  simp only [rowsOf, List.map_cons, List.count_cons, beq_iff_eq]

/-- Every row has one fate. -/
theorem sum_rowsOf (rows : List (Option (List Text))) :
    rowsOf atlas columns county rows .malformed + rowsOf atlas columns county rows .elsewhere +
      rowsOf atlas columns county rows .incomplete +
      rowsOf atlas columns county rows .importable = rows.length := by
  induction rows with
  | nil => rfl
  | cons row rows ih =>
    simp only [rowsOf_cons, List.length_cons]
    rcases rowFate atlas columns county row <;> simp <;> omega

/-- The counts of no rows but a batch. -/
theorem CountedFrom.of_wrote {counts later : RunCounts} {n : ℕ} (h : counts.Wrote n later) :
    CountedFrom atlas columns county counts n [] later :=
  ⟨h.read, h.written, h.skipped, h.rejected⟩

/-- A batch that is written in between. -/
theorem CountedFrom.of_flush {rows : List (Option (List Text))} {counts mid later : RunCounts}
    {n : ℕ} (hmid : counts.Wrote n mid) (h : CountedFrom atlas columns county mid 0 rows later) :
    CountedFrom atlas columns county counts n rows later where
  read := by rw [h.read, hmid.read]
  written := by rw [h.written, hmid.written, Nat.add_zero]
  skipped := by rw [h.skipped, hmid.skipped]
  rejected := by rw [h.rejected, hmid.rejected]

/-- **One row more**, under the outcome of its fate. -/
theorem CountedFrom.cons {row : Option (List Text)} {rows : List (Option (List Text))}
    {counts mid later : RunCounts} {n n' : ℕ} (h : CountedFrom atlas columns county mid n' rows later)
    (hread : mid.read + (if rowFate atlas columns county row = .malformed then 1 else 0) =
      counts.read + 1)
    (hwritten : mid.written + n' =
      counts.written + n + if rowFate atlas columns county row = .importable then 1 else 0)
    (hskipped : mid.skipped =
      counts.skipped + if rowFate atlas columns county row = .elsewhere then 1 else 0)
    (hrejected : mid.rejected =
      counts.rejected + (if rowFate atlas columns county row = .malformed then 1 else 0) +
        if rowFate atlas columns county row = .incomplete then 1 else 0) :
    CountedFrom atlas columns county counts n (row :: rows) later := by
  obtain ⟨hr, hw, hs, hj⟩ := h
  constructor
  · rw [rowsOf_cons, List.length_cons]
    omega
  · rw [rowsOf_cons]
    omega
  · rw [rowsOf_cons]
    omega
  · rw [rowsOf_cons, rowsOf_cons]
    omega

/-- **The counts of a file add up exactly where no row of it is malformed.** -/
theorem CountedFrom.balanced_iff {rows : List (Option (List Text))} {counts : RunCounts}
    (h : CountedFrom atlas columns county {} 0 rows counts) :
    counts.Balanced ↔ none ∉ rows := by
  have hread : counts.read + rowsOf atlas columns county rows .malformed = 0 + rows.length := h.read
  have hwritten : counts.inserted + counts.updated + counts.unchanged =
      0 + 0 + rowsOf atlas columns county rows .importable := h.written
  have hskipped : counts.skipped = 0 + rowsOf atlas columns county rows .elsewhere := h.skipped
  have hrejected : counts.rejected = 0 + rowsOf atlas columns county rows .malformed +
    rowsOf atlas columns county rows .incomplete := h.rejected
  have hsum : rowsOf atlas columns county rows .malformed +
      rowsOf atlas columns county rows .elsewhere + rowsOf atlas columns county rows .incomplete +
      rowsOf atlas columns county rows .importable = rows.length := sum_rowsOf rows
  have hmalformed : rowsOf atlas columns county rows .malformed = 0 ↔ none ∉ rows := by
    rw [rowsOf, List.count_eq_zero, not_iff_not, List.mem_map]
    constructor
    · rintro ⟨row, hrow, hfate⟩
      rcases row with _ | row
      · exact hrow
      · simp only [rowFate] at hfate
        split_ifs at hfate
        split at hfate <;> cases hfate
    · intro hnone
      exact ⟨none, hnone, rfl⟩
  rw [← hmalformed, RunCounts.Balanced]
  omega

/-! ### The ledger of a run -/

/-- **What a run has done**, told by its statements. -/
structure Ledger where
  /-- The licences that its open transaction has written. -/
  pending : RunCounts := {}
  /-- The licences of the batches that it has committed. -/
  committed : RunCounts := {}
  /-- How many batches it has committed. -/
  batches : ℕ := 0
  /-- What it has recorded of itself. -/
  recorded : Option (RunStatus × RunCounts) := none

/-- A licence is written. -/
def Ledger.write (outcome : UpsertOutcome) (l : Ledger) : Ledger :=
  { l with pending := l.pending.enter outcome }

/-- **What a statement enters**, once it is answered. -/
def Query.book {β : Type} : Query β → β → Ledger → Ledger
  | .license _ (.touch _ _ _), _, l => l.write .unchanged
  | .license _ (.update _ _ _ _), answer, l => if answer.isSome then l.write .updated else l
  | .license _ (.insert _ _ _), answer, l => if answer.isSome then l.write .inserted else l
  | .importRun _ (.finish _ status counts _ _), answer, l =>
    if answer.isSome then { l with recorded := some (status.1, counts) } else l
  | .commit, _, l =>
    { l with
      pending := {}
      committed := l.committed.plus l.pending
      batches := l.batches + 1 }
  | .rollback, _, l => { l with pending := {} }
  | _, _, l => l

/-- Licences have been committed exactly where a batch has. -/
structure Ledger.Kept (l : Ledger) : Prop where
  nothing : l.batches = 0 → l.committed = {}
  something : 0 < l.batches → 0 < l.committed.read

/-- What is committed is nothing exactly where no batch is. -/
theorem Ledger.Kept.committed_iff {l : Ledger} (h : l.Kept) : l.committed = {} ↔ l.batches = 0 := by
  constructor
  · intro hempty
    by_contra hne
    have hread : 0 < l.committed.read := h.something (Nat.pos_of_ne_zero hne)
    rw [hempty] at hread
    exact absurd hread (lt_irrefl 0)
  · exact h.nothing

/-- **A ledger of a run that is reading its file**: nothing is recorded yet. -/
structure Ledger.Sound (l : Ledger) : Prop extends l.Kept where
  recorded : l.recorded = none

namespace Ledger.Sound

variable {l : Ledger}

theorem write (h : l.Sound) (outcome : UpsertOutcome) : (l.write outcome).Sound :=
  ⟨⟨h.nothing, h.something⟩, h.recorded⟩

/-- A batch with a licence in it is committed. -/
theorem commit (h : l.Sound) (hpending : 0 < l.pending.read) :
    (Query.book .commit () l).Sound := by
  refine ⟨⟨fun hnone => absurd hnone (Nat.succ_ne_zero _), fun _ => ?_⟩, h.recorded⟩
  exact lt_of_lt_of_le hpending (Nat.le_add_left _ _)

theorem rollback (h : l.Sound) : (Query.book .rollback () l).Sound :=
  ⟨⟨h.nothing, h.something⟩, h.recorded⟩

end Ledger.Sound

/-! ### What a batch enters -/

variable {runId : Uuid} {l : Ledger}

/-- **A licence that is stored is entered**, as what happened to it. -/
theorem accounts_upsert {record : LicenseRecord} (h : l.Sound) :
    (upsert runId record).run.Accounts Query.book Ledger.Sound
      (fun m r => ∀ stored, r = .ok stored → m = l.write stored.outcome) l := by
  refine ⟨h, fun now => ⟨h, fun existing => ?_⟩⟩
  have hversion : ∀ {id : Uuid} {outcome : UpsertOutcome},
      (do appendVersion runId id record; pure ⟨id, outcome⟩ : Registering StoredLicense).run.Accounts
        Query.book Ledger.Sound (fun m r => ∀ stored, r = .ok stored → m = l.write stored.outcome)
        (l.write outcome) := by
    intro id outcome
    refine ⟨h.write outcome, fun _ => ⟨h.write outcome, ?_⟩⟩
    rintro stored hstored
    cases hstored
    rfl
  cases existing with
  | none =>
    refine ⟨h, fun inserted => ?_⟩
    cases inserted with
    | none => exact ⟨h, nofun⟩
    | some id => exact hversion
  | some p =>
    show (if p.2 = record.contentHash then _ else _ : Registering StoredLicense).run.Accounts _ _ _ _
    split
    · refine ⟨h, fun _ => ⟨h.write .unchanged, ?_⟩⟩
      rintro stored hstored
      cases hstored
      rfl
    · refine ⟨h, fun updated => ?_⟩
      cases updated with
      | none => exact ⟨h, nofun⟩
      | some _ => exact hversion

/-- Writing the listing of a licence enters nothing. -/
theorem accounts_project {id : Uuid} {record : LicenseRecord} (h : l.Sound) :
    (project atlas id record).run.Accounts Query.book Ledger.Sound (fun m _ => m = l) l := by
  refine Prog.Each.accounts (each_project ?_) h
  exact
    { location := fun _ _ _ _ _ => rfl
      verification := fun _ _ _ _ _ _ => rfl
      insert := fun _ _ _ => rfl
      displayName := fun _ _ _ _ => rfl
      postalCode := fun _ _ _ _ _ => rfl
      addTrade := fun _ _ _ _ => rfl
      dropTrade := fun _ _ _ => rfl
      enqueue := fun _ _ _ _ _ => rfl }

/-- One licence of a batch is counted, and entered. -/
theorem accounts_importRecord {record : LicenseRecord} {counts : RunCounts} (h : l.Sound) :
    (importRecord atlas runId record counts).run.Accounts Query.book Ledger.Sound
      (fun m r => ∀ later, r = .ok later →
        counts.Wrote 1 later ∧ m.pending.read = l.pending.read + 1) l := by
  refine Action.accounts_andThen (fun m stored => m = l.write stored.outcome) (accounts_upsert h)
    (by rintro _ _ _ _ ⟨⟩) fun m stored hm hstored => ?_
  show (if stored.outcome = .unchanged then _ else _ : Registering RunCounts).run.Accounts _ _ _ _
  subst hstored
  split
  · refine ⟨hm, ?_⟩
    rintro later hlater
    cases hlater
    exact ⟨counts.wrote_add .unchanged, rfl⟩
  · refine Action.accounts_andThen (fun m' _ => m' = l.write stored.outcome)
      ((accounts_project hm).mono fun _ _ _ hsame _ _ => hsame) (by rintro _ _ _ _ ⟨⟩)
      fun m' _ hm' hsame => ⟨hm', ?_⟩
    rintro later hlater
    cases hlater
    rw [hsame]
    exact ⟨counts.wrote_add stored.outcome, rfl⟩

/-- **Each licence of a batch is counted once, and entered once.** -/
theorem accounts_importEach {batch : List LicenseRecord} {counts : RunCounts} (h : l.Sound) :
    (importEach atlas runId batch counts).run.Accounts Query.book Ledger.Sound
      (fun m r => ∀ later, r = .ok later →
        counts.Wrote batch.length later ∧ m.pending.read = l.pending.read + batch.length) l := by
  induction batch generalizing counts l with
  | nil =>
    refine ⟨h, ?_⟩
    rintro later hlater
    cases hlater
    exact ⟨⟨rfl, rfl, rfl, rfl⟩, rfl⟩
  | cons record batch ih =>
    refine Action.accounts_andThen
      (fun m later => counts.Wrote 1 later ∧ m.pending.read = l.pending.read + 1)
      (accounts_importRecord h) (by rintro _ _ _ _ ⟨⟩) fun m mid hm hmid => ?_
    refine (ih hm).mono fun m' r _ hr later hlater => ?_
    obtain ⟨hwrote, hread⟩ := hr later hlater
    rw [List.length_cons, Nat.add_comm batch.length]
    exact ⟨hmid.1.trans hwrote, by rw [hread, hmid.2, Nat.add_assoc]⟩

/-- **A batch is counted**, and once it is committed, so is the batch in the ledger. -/
theorem accounts_flush {dryRun : Bool} {batch : List LicenseRecord} {counts : RunCounts}
    (h : l.Sound) (hbatch : batch ≠ []) :
    (flush atlas runId dryRun batch counts).run.Accounts Query.book Ledger.Sound
      (fun _ r => ∀ later, r = .ok later → counts.Wrote batch.length later) l := by
  rw [flush]
  split
  · refine ⟨h, ?_⟩
    rintro later hlater
    cases hlater
    refine ⟨?_, rfl, rfl, rfl⟩
    simp only [RunCounts.written]
    omega
  · refine Action.accounts_transaction ((accounts_importEach h).mono fun m r hm hr => ⟨?_, ?_⟩)
    · rintro later rfl
      obtain ⟨hwrote, hread⟩ := hr later rfl
      have hpending : 0 < m.pending.read := by
        rw [hread]
        exact Nat.add_pos_right _ (List.length_pos_iff.mpr hbatch)
      refine ⟨hm.commit hpending, ?_⟩
      rintro later' hlater'
      cases hlater'
      exact hwrote
    · rintro e rfl
      exact ⟨hm.rollback, by rintro _ ⟨⟩⟩

/-- **Each row of a file is counted once**, under the outcome of its fate. -/
theorem accounts_importRows {options : ImportOptions} (hsize : 1 ≤ options.batchSize)
    (rows : List (Option (List Text))) (batch : List LicenseRecord) (counts : RunCounts)
    (h : l.Sound) :
    (importRows atlas runId options columns rows batch counts).run.Accounts Query.book Ledger.Sound
      (fun _ r => ∀ later, r = .ok later →
        CountedFrom atlas columns options.county counts batch.length rows later) l := by
  induction rows generalizing batch counts l with
  | nil =>
    rw [importRows]
    split
    next hempty =>
      refine ⟨h, ?_⟩
      rintro later hlater
      cases hlater
      rw [List.isEmpty_iff.mp hempty]
      exact .of_wrote ⟨rfl, rfl, rfl, rfl⟩
    next hbatch =>
      refine (accounts_flush h ?_).mono fun _ _ _ hr later hlater => .of_wrote (hr later hlater)
      rintro rfl
      exact hbatch rfl
  | cons row rows ih =>
    rcases row with _ | row
    · refine (ih _ _ h).mono fun _ _ _ hr later hlater => (hr later hlater).cons ?_ ?_ ?_ ?_
      · simp [rowFate]
      · simp [rowFate, RunCounts.written]
      · simp [rowFate]
      · simp [rowFate]
    · rw [importRows]
      split
      next helse =>
        have hfate : rowFate atlas columns options.county (some row) = .elsewhere := if_pos helse
        refine (ih _ _ h).mono fun _ _ _ hr later hlater => (hr later hlater).cons ?_ ?_ ?_ ?_
        · simp [hfate]
        · simp [hfate, RunCounts.written]
        · simp [hfate]
        · simp [hfate]
      next helse =>
        -- the batch is written when it is full, and the rows after it are counted on from there
        have htail : ∀ (batch : List LicenseRecord) (counts : RunCounts),
            (if batch.length ≥ options.batchSize then do
                let counts ← flush atlas runId options.dryRun batch counts
                importRows atlas runId options columns rows [] counts
              else importRows atlas runId options columns rows batch counts :
              Registering RunCounts).run.Accounts Query.book Ledger.Sound
              (fun _ r => ∀ later, r = .ok later →
                CountedFrom atlas columns options.county counts batch.length rows later) l := by
          intro batch counts
          split
          next hfull =>
            have hbatch : batch ≠ [] := List.length_pos_iff.mp (lt_of_lt_of_le hsize hfull)
            refine Action.accounts_andThen (fun _ mid => counts.Wrote batch.length mid)
              (accounts_flush h hbatch) (by rintro _ _ _ _ ⟨⟩) fun m mid hm hwrote => ?_
            exact (ih [] mid hm).mono fun _ _ _ hr later hlater => .of_flush hwrote (hr later hlater)
          next => exact ih batch counts h
        rcases hrecord : buildRecord atlas columns row with reason | record
        · have hfate : rowFate atlas columns options.county (some row) = .incomplete := by
            rw [rowFate, if_neg helse, hrecord]
          refine (htail batch _).mono fun _ _ _ hr later hlater => (hr later hlater).cons ?_ ?_ ?_ ?_
          · simp [hfate]
          · simp [hfate, RunCounts.written]
          · simp [hfate]
          · simp [hfate]
        · have hfate : rowFate atlas columns options.county (some row) = .importable := by
            rw [rowFate, if_neg helse, hrecord]
          refine (htail (batch ++ [record]) _).mono fun _ _ _ hr later hlater =>
            (hr later hlater).cons ?_ ?_ ?_ ?_
          · simp [hfate]
          · simp [hfate, RunCounts.written]
            omega
          · simp [hfate]
          · simp [hfate]

/-! ### A whole run -/

/-- What an import that fails is ended by: the transaction that was open is rolled back. -/
def abandon (fault : Option ℕ) : Registering Unit :=
  match fault with
  | none => pure ()
  | some _ => Action.query .rollback

variable (atlas) in
/-- **`run`, of which any statement may fail** while the rows are imported: step number `fault`
does, with error `e`. -/
def runImportFailing (fault : Option ℕ) (e : AppError) (options : ImportOptions) :
    Registering RunCounts :=
  match ColumnMap.build atlas options.file.headers with
  | .error e => throw e
  | .ok columns =>
    if options.county.isSome && (columns.columns .county).isNone then
      throw (.invalid ("a county filter was requested but the file has no county column; " ++
        "re-run without --county to import every row"))
    else do
      let runId ← beginRun atlas options
      let outcome ← Action.ofProg <| Prog.failAt (.error e) fault
        (importRows atlas runId options columns options.file.rows [] {}).run
      abandon fault
      settleRun runId options.dryRun outcome

/-- An import of which no statement fails by itself. -/
theorem runImportFailing_none (e : AppError) (options : ImportOptions) :
    runImportFailing atlas none e options = runImport atlas options := by
  simp only [runImportFailing, runImport, Prog.failAt_none]
  rfl

variable (atlas) in
/-- How a run ends, and what it has recorded of itself by then. -/
structure Concluded (options : ImportOptions) (l : Ledger) (r : Except AppError RunCounts) : Prop where
  /-- The counts of a run that completes put each row of the file under one outcome. -/
  completed : ∀ counts, r = .ok counts →
    l.recorded = some (if options.dryRun then .failed else .succeeded, counts) ∧
      ∃ columns, ColumnMap.build atlas options.file.headers = .ok columns ∧
        CountedFrom atlas columns options.county {} 0 options.file.rows counts
  /-- The counts that a run that fails records are zero. -/
  failed : ∀ e status counts, r = .error e → l.recorded = some (status, counts) → counts = {}

/-- A run that has recorded nothing has failed. -/
theorem settled_error {options : ImportOptions} {e : AppError} (h : l.recorded = none) :
    Concluded atlas options l (.error e) where
  completed := by rintro _ ⟨⟩
  failed := fun _ status counts _ hrecorded => by
    rw [h] at hrecorded
    cases hrecorded

/-- What a run records when it is over is the last that it records. -/
theorem accounts_finishRun {status : { s : RunStatus // s ≠ .running }} {counts : RunCounts}
    {text : Option String} (h : l.Sound) :
    (finishRun runId status counts text).run.Accounts Query.book Ledger.Kept
      (fun m r => m.recorded = none ∧ (∃ e, r = .error e) ∨
        m.recorded = some (status.1, counts) ∧ r = .ok ()) l := by
  refine ⟨h.toKept, fun now => ⟨h.toKept, fun finished => ?_⟩⟩
  cases finished with
  | none => exact ⟨h.toKept, Or.inl ⟨h.recorded, _, rfl⟩⟩
  | some answer => exact ⟨⟨h.nothing, h.something⟩, Or.inr ⟨rfl, rfl⟩⟩

/-- **What a run records when it is over.** -/
theorem accounts_settleRun {options : ImportOptions} {outcome : Except AppError RunCounts}
    (h : l.Sound) (hcounts : ∀ counts, outcome = .ok counts →
      ∃ columns, ColumnMap.build atlas options.file.headers = .ok columns ∧
        CountedFrom atlas columns options.county {} 0 options.file.rows counts) :
    (settleRun runId options.dryRun outcome).run.Accounts Query.book Ledger.Kept
      (Concluded atlas options) l := by
  cases outcome with
  | error e =>
    refine Prog.accounts_bind ((accounts_finishRun h).mono fun m r hm hr => ?_)
    rcases hr with ⟨hnone, e', rfl⟩ | ⟨hrecorded, rfl⟩
    · exact ⟨hm, settled_error hnone⟩
    · refine ⟨hm, nofun, fun e' status counts _ hsame => ?_⟩
      rw [hrecorded] at hsame
      cases hsame
      rfl
  | ok counts =>
    have hdone : ∀ {status : { s : RunStatus // s ≠ .running }} {text : Option String},
        status.1 = (if options.dryRun then .failed else .succeeded) →
        (do finishRun runId status counts text; pure counts : Registering RunCounts).run.Accounts
          Query.book Ledger.Kept (Concluded atlas options) l := by
      intro status text hstatus
      refine Prog.accounts_bind ((accounts_finishRun h).mono fun m r hm hr => ?_)
      rcases hr with ⟨hnone, e', rfl⟩ | ⟨hrecorded, rfl⟩
      · exact ⟨hm, settled_error hnone⟩
      · refine ⟨hm, fun later hlater => ?_, nofun⟩
        cases hlater
        exact ⟨by rw [hrecorded, hstatus], hcounts counts rfl⟩
    show (if options.dryRun then _ else _ : Registering RunCounts).run.Accounts _ _ _ _
    split
    next hdry => exact hdone (if_pos hdry).symm
    next hwet => exact hdone (if_neg hwet).symm

/-- **Every import accounts for itself**, wherever it fails. -/
theorem accounts_runImportFailing {options : ImportOptions} (hsize : 1 ≤ options.batchSize)
    (fault : Option ℕ) (e : AppError) :
    (runImportFailing atlas fault e options).run.Accounts Query.book Ledger.Kept
      (Concluded atlas options) {} := by
  have hempty : Ledger.Sound {} := ⟨⟨fun _ => rfl, fun h => absurd h (lt_irrefl 0)⟩, rfl⟩
  rw [runImportFailing]
  split
  next => exact ⟨hempty.toKept, settled_error rfl⟩
  next columns hcolumns =>
    split
    · exact ⟨hempty.toKept, settled_error rfl⟩
    · refine ⟨hempty.toKept, fun already => ?_⟩
      cases already with
      | some id => exact ⟨hempty.toKept, settled_error rfl⟩
      | none =>
        refine ⟨hempty.toKept, fun begun => ?_⟩
        cases begun with
        | none => exact ⟨hempty.toKept, settled_error rfl⟩
        | some runId =>
          refine Action.accounts_ofProg_andThen ?_
          have himport : (importRows atlas runId options columns options.file.rows [] {}).run.Accounts
              Query.book Ledger.Sound (fun _ r => ∀ later, r = .ok later →
                CountedFrom atlas columns options.county {} 0 options.file.rows later) {} :=
            accounts_importRows hsize options.file.rows [] {} hempty
          have herror : ∀ (m : Ledger), m.Sound → ∀ later : RunCounts, Except.error e = .ok later →
              CountedFrom atlas columns options.county {} 0 options.file.rows later :=
            fun _ _ _ => nofun
          refine (himport.failAt fault herror).weaken (fun _ hm => hm.toKept) fun m outcome hm hcounts => ?_
          have hcounts' : ∀ counts, outcome = .ok counts →
              ∃ columns, ColumnMap.build atlas options.file.headers = .ok columns ∧
                CountedFrom atlas columns options.county {} 0 options.file.rows counts :=
            fun counts hok => ⟨columns, hcolumns, hcounts counts hok⟩
          rcases fault with _ | n
          · exact accounts_settleRun hm hcounts'
          · exact ⟨hm.toKept, fun _ => accounts_settleRun hm.rollback hcounts'⟩

/-- **When the counts of an import are accurate.** The counts of a run that completes put each row
of the file under one outcome, and add up exactly where no row is malformed. Those that a run
records when it fails are those of the batches that it has committed exactly where there are none. -/
theorem counts_accurate_iff (options : ImportOptions) (hsize : 1 ≤ options.batchSize)
    (fault : Option ℕ) (e : AppError) :
    (runImportFailing atlas fault e options).run.Accounts Query.book (fun _ => True)
      (fun l r =>
        (∀ counts, r = .ok counts →
          l.recorded = some (if options.dryRun then .failed else .succeeded, counts) ∧
            (∃ columns, ColumnMap.build atlas options.file.headers = .ok columns ∧
              CountedFrom atlas columns options.county {} 0 options.file.rows counts) ∧
            (counts.Balanced ↔ none ∉ options.file.rows)) ∧
          ∀ e status counts, r = .error e → l.recorded = some (status, counts) →
            (counts = l.committed ↔ l.batches = 0)) {} := by
  refine (accounts_runImportFailing hsize fault e).weaken (fun _ _ => trivial)
    fun l r hkept hsettled => ⟨fun counts hok => ?_, fun e' status counts herror hrecorded => ?_⟩
  · obtain ⟨hrecorded, columns, hcolumns, hcounted⟩ := hsettled.completed counts hok
    exact ⟨hrecorded, ⟨columns, hcolumns, hcounted⟩, hcounted.balanced_iff⟩
  · rw [hsettled.failed e' status counts herror hrecorded, eq_comm, hkept.committed_iff]

/-- What a run answers adds up exactly where its file has no malformed row, whatever its statements
are answered. -/
theorem counts_accounted (options : ImportOptions) (hsize : 1 ≤ options.batchSize) :
    (runImport atlas options).run.Accounts Query.book (fun _ => True)
      (fun _ r => ∀ counts, r = .ok counts → (counts.Balanced ↔ none ∉ options.file.rows)) {} := by
  rw [← runImportFailing_none (.internal "") options]
  refine (accounts_runImportFailing hsize none _).weaken (fun _ _ => trivial)
    fun l r _ hsettled counts hok => ?_
  obtain ⟨-, columns, -, hcounted⟩ := hsettled.completed counts hok
  exact hcounted.balanced_iff

/-- **What a run answers adds up** exactly where its file has no malformed row, beside whatever
other processes. -/
theorem imported_balanced_iff {C : Proviso ℕ Db Query} {s₀ : Db}
    {c : Config ℕ Db Call (Except AppError Response) Query}
    (h : Reachable (registry atlas) C (.initial s₀) c) {i : ℕ} {call : Call}
    {options : ImportOptions} (hcall : call.request = .importFile options)
    (hsize : 1 ≤ options.batchSize) {counts : RunCounts}
    (hserved : c.Served i call (.ok (.imported counts))) :
    counts.Balanced ↔ none ∉ options.file.rows := by
  have hprog : ∀ i call, ((registry atlas).program i call).Accounts Query.book (fun _ => True)
      (fun _ r => ∀ options counts, call.request = .importFile options → 1 ≤ options.batchSize →
        r = .ok (.imported counts) → (counts.Balanced ↔ none ∉ options.file.rows)) ({} : Ledger) := by
    rintro i ⟨request, requestId, fault, later⟩
    by_cases hrequest : ∃ options, request = .importFile options
    · obtain ⟨options, rfl⟩ := hrequest
      by_cases hsize : 1 ≤ options.batchSize
      · have himport : (runImport atlas options).run.Accounts Query.book (fun _ => True)
            (fun _ r => ∀ counts, r = .ok counts → (counts.Balanced ↔ none ∉ options.file.rows)) {} :=
          counts_accounted options hsize
        refine Action.accounts_andThen (fun _ counts => counts.Balanced ↔ none ∉ options.file.rows)
          himport (fun _ _ _ _ _ _ _ => nofun) fun _ counts _ hcounts => ⟨trivial, ?_⟩
        intro options' counts' hsame _ hok
        cases hsame
        cases hok
        exact hcounts
      · refine Prog.accounts_of_forall (fun _ => trivial) fun _ _ options' counts hsame hsize' => ?_
        cases hsame
        exact absurd hsize' hsize
    · refine Prog.accounts_of_forall (fun _ => trivial) fun _ _ options' counts hsame => ?_
      exact absurd ⟨options', hsame⟩ hrequest
  obtain ⟨-, -, hbalanced⟩ := accounts_of_served hprog h hserved
  exact hbalanced options counts hcall hsize rfl

/-! ### Two files -/

/-- The headers of a file. -/
def registerHeaders : List Text :=
  ["License Number".toList, "Business Name".toList, "Status".toList]

/-- A dry run over a licence, after a row that cannot be read. -/
def malformedFirst : ImportOptions where
  source := .cslbMasterList
  file := ⟨"register.csv".toList, [], registerHeaders,
    [none, some ["1".toList, "Reed Plumbing".toList, "CLEAR".toList]]⟩
  dryRun := true

/-- Two licences, each in a batch of its own, and the number of the second is too long to store. -/
def oneByOne : ImportOptions where
  source := .cslbMasterList
  file := ⟨"register.csv".toList, [], registerHeaders,
    [some ["1".toList, "Reed Plumbing".toList, "CLEAR".toList],
      some [List.replicate 33 '7', "Boyle Painting".toList, "CLEAR".toList]]⟩
  batchSize := 1

/-- An import of the two licences that loses its connection at its third step. -/
theorem counts_accurate_iff_oneByOne :
    (runImportFailing .plain (some 3) (.internal "") oneByOne).run.Accounts Query.book
      (fun _ => True)
      (fun l r =>
        (∀ counts, r = .ok counts →
          l.recorded = some (.succeeded, counts) ∧
            (∃ columns, ColumnMap.build .plain registerHeaders = .ok columns ∧
              CountedFrom .plain columns none {} 0 oneByOne.file.rows counts) ∧
            (counts.Balanced ↔ none ∉ oneByOne.file.rows)) ∧
          ∀ e status counts, r = .error e → l.recorded = some (status, counts) →
            (counts = l.committed ↔ l.batches = 0)) {} :=
  counts_accurate_iff oneByOne (by decide) (some 3) (.internal "")

/-- **Counts that are not accurate**: a dry run that completes has read one row and answers for
two, and a run that fails records that it has imported nothing, after a licence has been. -/
theorem counts_inaccurate :
    (∃ c, Reachable (registry .plain) anyQuery (.initial {}) c ∧
        c.Served 0 { request := .importFile malformedFirst }
          (.ok (.imported { read := 1, inserted := 1, rejected := 1 })) ∧
        ¬ RunCounts.Balanced { read := 1, inserted := 1, rejected := 1 }) ∧
      ∃ c, Reachable (registry .plain) anyQuery (.initial {}) c ∧
        c.Served 0 { request := .importFile oneByOne }
          (.error (.internal "a constraint is violated")) ∧
        (∃ run, (c.db.runs.slot 0).committed = some run ∧ run.status = .failed ∧
          run.counts = {}) ∧
        ∃ license, (c.db.licenses.slot 0).committed = some license ∧ license.lastRunId = 0 := by
  constructor
  · have hrun := exists_of_exec (registry .plain)
      (.arrive 0 { request := .importFile malformedFirst } :: List.replicate 4 (.run 0))
      (.initial {})
      (fun c => decide (c.Served 0 { request := .importFile malformedFirst }
        (.ok (.imported { read := 1, inserted := 1, rejected := 1 }))))
      (by decide +kernel)
    obtain ⟨c, hc, hserved⟩ := hrun
    exact ⟨c, hc, of_decide_eq_true hserved, by decide⟩
  · have hrun := exists_of_exec (registry .plain)
      (.arrive 0 { request := .importFile oneByOne } :: List.replicate 23 (.run 0)) (.initial {})
      (fun c => decide (c.Served 0 { request := .importFile oneByOne }
          (.error (.internal "a constraint is violated"))) &&
        ((c.db.runs.slot 0).committed.any fun run =>
          decide (run.status = .failed) && decide (run.counts = {})) &&
        (c.db.licenses.slot 0).committed.any fun license => decide (license.lastRunId = 0))
      (by decide +kernel)
    obtain ⟨c, hc, hserved⟩ := hrun
    simp only [Bool.and_eq_true, decide_eq_true_eq, Option.any_eq_true] at hserved
    obtain ⟨⟨hanswer, run, hrow, hfailed, hzero⟩, license, hlicense, hlast⟩ := hserved
    exact ⟨c, hc, hanswer, ⟨run, hrow, hfailed, hzero⟩, license, hlicense, hlast⟩

end Marketplace.Registry
