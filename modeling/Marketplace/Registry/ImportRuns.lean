import Marketplace.Registry.Importing

/-!
# What a run does

A run that is not refused is recorded, imports the rows of its file, and is finished
(`Marketplace.Registry.Contents.RunsImport`): it has succeeded if every row that is a licence could be
stored, and has failed at the first one that could not (`Marketplace.Registry.runImport_yields`).
-/

namespace Marketplace.Registry

open ReadCommitted

variable {atlas : Atlas} {i : ℕ} {C C' : Contents} {options : ImportOptions}

/-! ### The record of a run -/

/-- A run that is running has not finished. -/
theorem unfinished : RunStatus.running = .running ↔ (none : Option Instant) = none :=
  iff_of_true rfl rfl

theorem succeeded_ne_running : RunStatus.succeeded ≠ .running := by decide

theorem failed_ne_running : RunStatus.failed ≠ .running := by decide

/-- The record of a run that has begun. -/
def ImportOptions.run (options : ImportOptions) : ImportRun where
  source := options.source
  sourceFileName := options.file.name
  sourceFileSha256 := options.file.sha256
  snapshotDate := options.snapshotDate
  finished_iff_done := unfinished

/-- **The bytes of the file have been imported.** -/
def Contents.HasImported (options : ImportOptions) (C : Contents) : Prop :=
  ∃ k run, C.runs k = some run ∧ run.source = options.source ∧
    run.sourceFileSha256 = options.file.sha256 ∧ run.status = .succeeded

/-- Another version of a run. -/
def Contents.setRun (C : Contents) (id : Uuid) (run : ImportRun) : Contents :=
  { C with runs := Function.update C.runs id (some run) }

theorem Contents.setRun_runs (id : Uuid) (run : ImportRun) (k : Uuid) :
    (C.setRun id run).runs k = if k = id then some run else C.runs k :=
  Function.update_apply _ _ _ _

/-- The columns of a file that can be imported, with those of the county that is asked for. -/
def ImportOptions.Accepts (atlas : Atlas) (options : ImportOptions) (columns : ColumnMap) : Prop :=
  ColumnMap.build atlas options.file.headers = .ok columns ∧
    (options.county.isSome = true → (columns.columns .county).isSome = true)

/-- **A run may begin.** -/
structure Contents.Begins (atlas : Atlas) (options : ImportOptions) (columns : ColumnMap)
    (C : Contents) : Prop where
  accepts : options.Accepts atlas columns
  named : isBlank options.file.name = false
  fresh : ¬ C.HasImported options

/-- How a run ends, by its outcome. -/
def finishedAs : Except AppError RunCounts → { s : RunStatus // s ≠ .running }
  | .ok _ => ⟨.succeeded, succeeded_ne_running⟩
  | .error _ => ⟨.failed, failed_ne_running⟩

/-- The counts that are recorded. -/
def countsOf : Except AppError RunCounts → RunCounts
  | .ok counts => counts
  | .error _ => {}

/-- The error that is recorded. -/
def errorOf : Except AppError RunCounts → Option String
  | .ok _ => none
  | .error e => some (errorText e)

/-- The licences of a file. -/
def ImportOptions.records (atlas : Atlas) (options : ImportOptions) (columns : ColumnMap) :
    List LicenseRecord :=
  options.file.rows.filterMap (importable atlas columns options.county)

/-- The number of rows of a file that are rejected. -/
def ImportOptions.rejected (atlas : Atlas) (options : ImportOptions) (columns : ColumnMap) : ℕ :=
  options.file.rows.countP (isRejected atlas columns options.county)

/-- **What a run does.** -/
inductive Contents.RunsImport (atlas : Atlas) (options : ImportOptions) (C : Contents) :
    Except AppError RunCounts → Contents → Prop
  /-- It does not begin. -/
  | refused {e : AppError} (h : ∀ columns, ¬ C.Begins atlas options columns) :
      C.RunsImport atlas options (.error e) C
  /-- It imports the rows of the file, and is finished. -/
  | finished {columns : ColumnMap} {runId : Uuid} {outcome : Except AppError RunCounts}
      {C' : Contents} {now : Instant} (hbegins : C.Begins atlas options columns)
      (hid : C.runs runId = none)
      (hrows : (C.setRun runId options.run).ImportsRows atlas runId (options.records atlas columns)
        (options.rejected atlas columns) {} outcome C') :
      C.RunsImport atlas options outcome (C'.setRun runId
        (options.run.finish (finishedAs outcome) (countsOf outcome) (errorOf outcome) now))

/-! ### Beginning and finishing -/

theorem beginRun_yields (options : ImportOptions) :
    Yields atlas i none C (beginRun atlas options) fun r C' =>
      (∀ runId, r = .ok runId → C.runs runId = none ∧ isBlank options.file.name = false ∧
        ¬ C.HasImported options ∧ C' = C.setRun runId options.run) ∧
      ∀ e, r = .error e → (isBlank options.file.name = true ∨ C.HasImported options) ∧ C' = C := by
  refine Yields.look fun db hdb => ?_
  have hrow : ∀ k, db.runs.row i k = C.runs k := fun k => congrFun hdb.runs_eq k
  cases hhead : (db.runs.scan i fun _ run =>
      run.source = options.source && run.sourceFileSha256 = options.file.sha256 &&
        run.status = .succeeded).head? with
  | some id =>
    obtain ⟨run, hrun, hsame⟩ := Table.mem_scan.mp (List.mem_of_mem_head? hhead)
    simp only [Bool.and_eq_true, decide_eq_true_eq] at hsame
    refine Yields.throw ⟨fun _ hr => ?_, fun _ _ =>
      ⟨Or.inr ⟨id, run, (hrow id).symm.trans hrun, hsame.1.1, hsame.1.2, hsame.2⟩, rfl⟩⟩
    cases hr
  | none =>
    have hfresh : ¬ C.HasImported options := by
      rintro ⟨k, run, hrun, hsource, hbytes, hstatus⟩
      have hmem : k ∈ db.runs.scan i fun _ run =>
          run.source = options.source && run.sourceFileSha256 = options.file.sha256 &&
            run.status = .succeeded :=
        Table.mem_scan.mpr ⟨run, (hrow k).trans hrun, by simp [hsource, hbytes, hstatus]⟩
      rw [List.head?_eq_none_iff.mp hhead] at hmem
      exact absurd hmem List.not_mem_nil
    refine Yields.query fun db hdb => ?_
    cases hname : isBlank options.file.name with
    | true =>
      have hrefused : (RunStatement.begin options.run).run .auto i db.runs =
          some (none, db.runs) := by
        rw [RunStatement.run]
        exact if_pos hname
      obtain ⟨db', hq, hdb'⟩ := hdb.importRun hrefused
      rw [hdb.runs_eq] at hdb'
      refine ⟨none, db', _, hq, hdb', Yields.throw ⟨fun _ hr => ?_, fun _ _ => ⟨Or.inl rfl, rfl⟩⟩⟩
      cases hr
    | false =>
      -- A run that is running clashes with none.
      have hclash : ∀ k run, db.runs.seen i k = some run → options.run.clashes run = false :=
        fun _ _ _ => rfl
      obtain ⟨id, t, ht, hid, hseen⟩ := hdb.admits.runs.insertFresh_new options.run hclash
      rw [hdb.runs_eq] at hid hseen
      have hrun : (RunStatement.begin options.run).run .auto i db.runs = some (some id, t) := by
        rw [RunStatement.run]
        exact (if_neg (ne_true_of_eq_false hname)).trans ht
      obtain ⟨db', hq, hdb'⟩ := hdb.importRun hrun
      rw [hseen] at hdb'
      refine ⟨some id, db', _, hq, hdb', Yields.pure ⟨fun runId hr => ?_, fun _ hr => ?_⟩⟩
      · cases hr
        exact ⟨hid, rfl, hfresh, rfl⟩
      · cases hr

/-- A run is finished, unless another one has succeeded with the same bytes. -/
theorem finishRun_yields {α : Type} {runId : Uuid} {run : ImportRun}
    {status : { s : RunStatus // s ≠ .running }} {counts : RunCounts} {error : Option String}
    {k : Unit → Registering α} {post : Except AppError α → Contents → Prop}
    (hrow : C.runs runId = some run)
    (hclash : ∀ l other now, l ≠ runId → C.runs l = some other →
      (run.finish status counts error now).clashes other = false)
    (h : ∀ now, Yields atlas i none (C.setRun runId (run.finish status counts error now)) (k ())
      post) : Yields atlas i none C (finishRun runId status counts error >>= k) post := by
  refine Yields.andThen (Yields.clock fun now => Yields.query fun db hdb => ?_)
  have hanswer : Table.updating (fun run => some ((), run.finish status counts error now))
      (db.runs.seen i runId) = (some (), some (run.finish status counts error now)) := by
    rw [hdb.runs_eq, hrow]
    rfl
  have hunique : ∀ l other run', l ≠ runId → db.runs.seen i l = some other →
      (Table.updating (fun run => some ((), run.finish status counts error now))
        (db.runs.seen i runId)).2 = some run' → run'.clashes other = false := by
    intro l other run' hne hother hrun'
    rw [hanswer] at hrun'
    cases hrun'
    rw [hdb.runs_eq] at hother
    exact hclash l other now hne hother
  obtain ⟨t, ht, hseen⟩ := hdb.admits.runs.modifyUnique runId
    (Table.updating fun run => some ((), run.finish status counts error now)) hunique
  rw [hanswer] at ht hseen
  obtain ⟨db', hq, hdb'⟩ := hdb.importRun (q := .finish runId status counts error now) ht
  rw [hdb.runs_eq] at hseen
  rw [hseen] at hdb'
  exact ⟨_, db', _, hq, hdb', Yields.pure ⟨(), rfl, h now⟩⟩

/-- A run that has begun is running, and has imported nothing yet. -/
theorem hasImported_setRun {runId : Uuid} (hfresh : ¬ C.HasImported options) :
    ¬ (C.setRun runId options.run).HasImported options := by
  rintro ⟨k, run, hrun, hsource, hbytes, hstatus⟩
  rw [Contents.setRun_runs] at hrun
  split at hrun
  · cases hrun
    cases hstatus
  · exact hfresh ⟨k, run, hrun, hsource, hbytes, hstatus⟩

/-- What is recorded of a run, by its outcome. -/
theorem settleRun_yields (options : ImportOptions) {runId : Uuid} (hrow : C.runs runId = some options.run)
    (hfresh : ¬ C.HasImported options) (outcome : Except AppError RunCounts) :
    Yields atlas i none C (settleRun runId false outcome) fun r C' => r = outcome ∧ ∃ now,
      C' = C.setRun runId
        (options.run.finish (finishedAs outcome) (countsOf outcome) (errorOf outcome) now) := by
  cases outcome with
  | ok counts =>
    refine finishRun_yields hrow (fun l other now _ hother => ?_) fun now =>
      Yields.pure ⟨rfl, now, rfl⟩
    -- Another run that has succeeded with these bytes would be one that has imported them.
    by_contra hclash
    rw [Bool.not_eq_false, ImportRun.clashes] at hclash
    simp only [Bool.and_eq_true, decide_eq_true_eq] at hclash
    obtain ⟨⟨⟨-, hstatus⟩, hsource⟩, hbytes⟩ := hclash
    exact hfresh ⟨l, other, hother, hsource.symm, hbytes.symm, hstatus⟩
  | error e =>
    exact finishRun_yields hrow (fun _ _ _ _ _ => rfl) fun now => Yields.throw ⟨rfl, now, rfl⟩

/-! ### A whole run -/

/-- **What is projected from the register leaves the register as it is.** -/
structure Contents.SameRegister (C C' : Contents) : Prop where
  licenses : C'.licenses = C.licenses
  versions : C'.versions = C.versions
  runs : C'.runs = C.runs
  areas : C'.areas = C.areas

theorem Contents.sameRegister_change (C : Contents) (id : Uuid) (f : Contractor → Contractor) :
    C.SameRegister (C.change id f) :=
  ⟨change_licenses, change_versions, change_runs, change_areas⟩

theorem Contents.SameRegister.trans {C'' : Contents} (h : C.SameRegister C')
    (h' : C'.SameRegister C'') : C.SameRegister C'' :=
  ⟨h'.licenses.trans h.licenses, h'.versions.trans h.versions, h'.runs.trans h.runs,
    h'.areas.trans h.areas⟩

theorem Contents.Places.sameRegister {u : UpsertResult} (h : C.Places atlas u C') :
    C.SameRegister C' := by
  cases h with
  | still => exact ⟨rfl, rfl, rfl, rfl⟩
  | moved _ hrelocates =>
    have hchange := C.sameRegister_change u.id (Contractor.republished atlas u.id)
    cases hrelocates with
    | unaddressed | waiting => exact hchange
    | queued => exact hchange.trans ⟨rfl, rfl, rfl, rfl⟩

theorem Contents.Lists.sameRegister {facts : SourceFacts} {u : UpsertResult}
    (h : C.Lists facts (.ok u) C') : C.SameRegister C' := by
  cases h with
  | created | refreshed => exact ⟨rfl, rfl, rfl, rfl⟩

/-- **An import stores a licence**, and leaves the register as that leaves it. -/
theorem Contents.Imports.exists_upserts {runId : Uuid} {record : LicenseRecord} {o : UpsertOutcome}
    (h : C.Imports atlas runId record (.ok o) C') :
    ∃ stored C₁, C.Upserts runId record (.ok stored) C₁ ∧ stored.outcome = o ∧
      C₁.SameRegister C' ∧ (o = .unchanged → C' = C₁) := by
  cases h with
  | @unchanged stored _ hstored hsame =>
    exact ⟨stored, C', hstored, hsame, ⟨rfl, rfl, rfl, rfl⟩, fun _ => rfl⟩
  | @projected stored u C₁ C₂ C₃ now hstored hnew hlisted hplaced =>
    refine ⟨stored, C₁, hstored, rfl, ?_, fun hsame => absurd hsame hnew⟩
    have htrades : C₂.SameRegister (C₂.setTrades u.id (tradesOf atlas record.classifications)) :=
      ⟨rfl, rfl, rfl, rfl⟩
    exact ((hlisted.sameRegister.trans htrades).trans hplaced.sameRegister).trans
      (C₃.sameRegister_change u.id _)

/-- Importing a licence leaves the runs as they are. -/
theorem Contents.Imports.runs_eq {runId : Uuid} {record : LicenseRecord} {o : UpsertOutcome}
    (h : C.Imports atlas runId record (.ok o) C') : C'.runs = C.runs := by
  obtain ⟨stored, C₁, hstored, -, hsame, -⟩ := h.exists_upserts
  rw [hsame.runs]
  cases hstored <;> rfl

theorem Contents.ImportsAll.runs_eq {runId : Uuid} {records : List LicenseRecord}
    {os : List UpsertOutcome} (h : Contents.ImportsAll atlas runId records os C C') :
    C'.runs = C.runs := by
  induction h with
  | nil => rfl
  | cons hrecord _ ih => rw [ih, hrecord.runs_eq]

theorem Contents.ImportsRows.runs_eq {runId : Uuid} {records : List LicenseRecord} {n : ℕ}
    {counts : RunCounts} {r : Except AppError RunCounts}
    (h : C.ImportsRows atlas runId records n counts r C') : C'.runs = C.runs := by
  cases r with
  | ok later =>
    obtain ⟨os, hall, -⟩ := h.ok later rfl
    exact hall.runs_eq
  | error e =>
    obtain ⟨-, before, after, os, -, hall⟩ := h.error e rfl
    exact hall.runs_eq

/-- **What a run does**, when it is not dry. -/
theorem runImport_yields (hdry : options.dryRun = false) :
    Yields atlas i none C (runImport atlas options) (C.RunsImport atlas options) := by
  rw [runImport]
  cases hbuild : ColumnMap.build atlas options.file.headers with
  | error e =>
    refine Yields.throw (.refused fun columns hbegins => ?_)
    have haccepts := hbegins.accepts.1
    rw [hbuild] at haccepts
    cases haccepts
  | ok columns =>
    show Yields atlas i none C (if _ then _ else _) _
    split
    · rename_i hcounty
      refine Yields.throw (.refused fun columns' hbegins => ?_)
      obtain ⟨hbuild', hcolumn⟩ := hbegins.accepts
      rw [hbuild] at hbuild'
      cases hbuild'
      obtain ⟨hasked, hnone⟩ := Bool.and_eq_true_iff.mp hcounty
      rw [Option.isNone_iff_eq_none.mp hnone] at hcolumn
      cases hcolumn hasked
    · rename_i hcounty
      have haccepts : options.Accepts atlas columns := by
        refine ⟨hbuild, fun hasked => ?_⟩
        rw [hasked, Bool.true_and, Bool.not_eq_true, Option.isNone_eq_false_iff] at hcounty
        exact hcounty
      refine Yields.seq ((beginRun_yields options).mono ?_)
      rintro r C₁ ⟨hok, herror⟩
      refine ⟨fun runId hr => ?_, fun e hr => ?_⟩
      · obtain ⟨hid, hname, hfresh, rfl⟩ := hok runId hr
        have hbegins : C.Begins atlas options columns := ⟨haccepts, hname, hfresh⟩
        refine Yields.attempt ((importRows_yields hdry runId columns options.file.rows [] {}).mono
          fun outcome C₂ hrows => ?_)
        rw [hdry]
        have hruns : C₂.runs = (C.setRun runId options.run).runs := hrows.runs_eq
        refine (settleRun_yields options ?_ ?_ outcome).mono ?_
        · rw [hruns, Contents.setRun_runs, if_pos rfl]
        · rintro ⟨k, run, hrun, hsame⟩
          rw [hruns] at hrun
          exact hasImported_setRun hfresh ⟨k, run, hrun, hsame⟩
        · rintro _ _ ⟨rfl, now, rfl⟩
          exact .finished hbegins hid hrows
      · obtain ⟨hrefused, rfl⟩ := herror e hr
        refine .refused fun columns' hbegins => hrefused.elim (fun hblank => ?_) hbegins.fresh
        rw [hbegins.named] at hblank
        cases hblank

end Marketplace.Registry
