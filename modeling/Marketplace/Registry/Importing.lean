import Marketplace.Registry.Storing

/-!
# What importing a file does

Importing one licence is one of the relations of `Marketplace.Registry.Contents.Imports`; importing some
of them is a chain of these (`Marketplace.Registry.Contents.ImportsAll`). The licences of a file are
imported in their order, until one is refused: the batches before it stay, and its own is rolled
back (`Marketplace.Registry.importRows_yields`).
-/

namespace Marketplace.Registry

open ReadCommitted

variable {atlas : Atlas} {i : ℕ} {P C C' : Contents}

/-! ### One licence -/

/-- **What importing one licence does.** -/
inductive Contents.Imports (atlas : Atlas) (runId : Uuid) (record : LicenseRecord) (C : Contents) :
    Except AppError UpsertOutcome → Contents → Prop
  /-- Its content is known. -/
  | unchanged {stored : StoredLicense} {C' : Contents}
      (hstored : C.Upserts runId record (.ok stored) C') (hsame : stored.outcome = .unchanged) :
      C.Imports atlas runId record (.ok .unchanged) C'
  /-- Its content is new. -/
  | projected {stored : StoredLicense} {u : UpsertResult} {C₁ C₂ C₃ : Contents} {now : Instant}
      (hstored : C.Upserts runId record (.ok stored) C₁) (hnew : stored.outcome ≠ .unchanged)
      (hlisted : C₁.Lists (sourceFacts atlas stored.id record) (.ok u) C₂)
      (hplaced : (C₂.setTrades u.id (tradesOf atlas record.classifications)).Places atlas u C₃) :
      C.Imports atlas runId record (.ok stored.outcome) (C₃.recheck atlas u.id now)
  /-- It may not be stored. -/
  | notStored {e : AppError} {C' : Contents} (hstored : C.Upserts runId record (.error e) C') :
      C.Imports atlas runId record (.error e) C'
  /-- Its listing may not be stored. -/
  | notListed {stored : StoredLicense} {e : AppError} {C₁ C₂ : Contents}
      (hstored : C.Upserts runId record (.ok stored) C₁) (hnew : stored.outcome ≠ .unchanged)
      (hlisted : C₁.Lists (sourceFacts atlas stored.id record) (.error e) C₂) :
      C.Imports atlas runId record (.error e) C₂

theorem importRecord_yields (runId : Uuid) (record : LicenseRecord) (counts : RunCounts) :
    Yields atlas i (some P) C (importRecord atlas runId record counts) fun r C' =>
      (∀ counts', r = .ok counts' → ∃ o, counts' = counts.add o ∧
        C.Imports atlas runId record (.ok o) C') ∧
      ∀ e, r = .error e → C.Imports atlas runId record (.error e) C' := by
  refine Yields.seq ((upsert_yields runId record).mono fun r C₁ hstored => ⟨?_, ?_⟩)
  · rintro stored rfl
    show Yields atlas i (some P) C₁
      (if stored.outcome = .unchanged then _ else _ : Registering RunCounts) _
    split
    · rename_i hsame
      refine Yields.pure ⟨fun counts' hr => ?_, fun e hr => ?_⟩
      · cases hr
        exact ⟨.unchanged, rfl, .unchanged hstored hsame⟩
      · cases hr
    · rename_i hnew
      refine Yields.seq (Yields.seq ((upsertFromLicense_yields _).mono fun r C₂ hlisted => ⟨?_, ?_⟩))
      · rintro u rfl
        refine replaceCslbTrades_yields (place_yields fun C₃ hplaced =>
          recompute_yields fun outcome now => Yields.pure ⟨?_, ?_⟩)
        · rintro _ -
          refine Yields.pure ⟨fun counts' hr => ?_, fun e hr => ?_⟩
          · cases hr
            exact ⟨stored.outcome, rfl, .projected hstored hnew hlisted hplaced⟩
          · cases hr
        · intro e hr
          cases hr
      · rintro e rfl
        refine ⟨fun b hr => ?_, fun e' hr => ?_⟩
        · cases hr
        · cases hr
          refine ⟨fun counts' hr' => ?_, fun e' hr' => ?_⟩
          · cases hr'
          · cases hr'
            exact .notListed hstored hnew hlisted
  · rintro e rfl
    refine ⟨fun counts' hr => ?_, fun e' hr => ?_⟩
    · cases hr
    · cases hr
      exact .notStored hstored

/-! ### Several licences -/

/-- **What importing some licences does**, one after the other. -/
inductive Contents.ImportsAll (atlas : Atlas) (runId : Uuid) :
    List LicenseRecord → List UpsertOutcome → Contents → Contents → Prop
  | nil (C : Contents) : ImportsAll atlas runId [] [] C C
  | cons {record : LicenseRecord} {records : List LicenseRecord} {o : UpsertOutcome}
      {os : List UpsertOutcome} {C C' C'' : Contents}
      (h : C.Imports atlas runId record (.ok o) C')
      (hrest : ImportsAll atlas runId records os C' C'') :
      ImportsAll atlas runId (record :: records) (o :: os) C C''

/-- **One of the licences is refused**, after the ones before it have been imported. -/
def Contents.Refuses (atlas : Atlas) (runId : Uuid) (records : List LicenseRecord) (C : Contents) :
    Prop :=
  ∃ before record after os C' e C'', records = before ++ record :: after ∧
    ImportsAll atlas runId before os C C' ∧ C'.Imports atlas runId record (.error e) C''

theorem Contents.ImportsAll.append {runId : Uuid} {records records' : List LicenseRecord}
    {os os' : List UpsertOutcome} {C C' C'' : Contents}
    (h : ImportsAll atlas runId records os C C') (h' : ImportsAll atlas runId records' os' C' C'') :
    ImportsAll atlas runId (records ++ records') (os ++ os') C C'' := by
  induction h with
  | nil => exact h'
  | cons hrecord _ ih => exact .cons hrecord (ih h')

theorem Contents.Refuses.append {runId : Uuid} {records : List LicenseRecord}
    (h : C.Refuses atlas runId records) (records' : List LicenseRecord) :
    C.Refuses atlas runId (records ++ records') := by
  obtain ⟨before, record, after, os, C', e, C'', rfl, hbefore, hrecord⟩ := h
  exact ⟨before, record, after ++ records', os, C', e, C'', by simp, hbefore, hrecord⟩

theorem Contents.ImportsAll.refuses {runId : Uuid} {records records' : List LicenseRecord}
    {os : List UpsertOutcome} (h : ImportsAll atlas runId records os C C')
    (h' : C'.Refuses atlas runId records') : C.Refuses atlas runId (records ++ records') := by
  obtain ⟨before, record, after, os', C₁, e, C₂, rfl, hbefore, hrecord⟩ := h'
  exact ⟨records ++ before, record, after, os ++ os', C₁, e, C₂, by simp, h.append hbefore, hrecord⟩

/-- The counts, with the licences of some outcomes and some rejected rows more. -/
structure RunCounts.Gained (os : List UpsertOutcome) (rejected : ℕ) (counts later : RunCounts) :
    Prop where
  inserted : later.inserted = counts.inserted + os.count .inserted
  updated : later.updated = counts.updated + os.count .updated
  rejected : later.rejected = counts.rejected + rejected

theorem RunCounts.Gained.refl (counts : RunCounts) : Gained [] 0 counts counts := ⟨rfl, rfl, rfl⟩

theorem RunCounts.Gained.trans {os os' : List UpsertOutcome} {n n' : ℕ}
    {counts mid later : RunCounts} (h : Gained os n counts mid) (h' : Gained os' n' mid later) :
    Gained (os ++ os') (n + n') counts later := by
  constructor
  · rw [h'.inserted, h.inserted, List.count_append, Nat.add_assoc]
  · rw [h'.updated, h.updated, List.count_append, Nat.add_assoc]
  · rw [h'.rejected, h.rejected, Nat.add_assoc]

theorem RunCounts.gained_add (counts : RunCounts) (o : UpsertOutcome) :
    Gained [o] 0 counts (counts.add o) := by
  cases o <;> exact ⟨rfl, rfl, rfl⟩

theorem importEach_yields (runId : Uuid) (batch : List LicenseRecord) (counts : RunCounts) :
    Yields atlas i (some P) C (importEach atlas runId batch counts) fun r C' =>
      (∀ counts', r = .ok counts' → ∃ os, Contents.ImportsAll atlas runId batch os C C' ∧
        counts.Gained os 0 counts') ∧
      ∀ e, r = .error e → C.Refuses atlas runId batch := by
  induction batch generalizing C counts with
  | nil =>
    refine Yields.pure ⟨fun counts' hr => ?_, fun e hr => ?_⟩
    · cases hr
      exact ⟨[], .nil C, .refl counts⟩
    · cases hr
  | cons record batch ih =>
    refine Yields.seq ((importRecord_yields runId record counts).mono ?_)
    rintro r C₁ ⟨hok, herror⟩
    refine ⟨fun counts₁ hr => (ih counts₁).mono ?_, fun e hr => ⟨fun counts' hr' => ?_, fun e' hr' => ?_⟩⟩
    · obtain ⟨o, rfl, hrecord⟩ := hok counts₁ hr
      rintro r' C' ⟨hok', herror'⟩
      refine ⟨fun counts' hr' => ?_, fun e hr' => ?_⟩
      · obtain ⟨os, hall, hgained⟩ := hok' counts' hr'
        exact ⟨o :: os, .cons hrecord hall, (counts.gained_add o).trans hgained⟩
      · exact (Contents.ImportsAll.cons hrecord (.nil C₁)).refuses (herror' e hr')
    · cases hr'
    · exact ⟨[], record, batch, [], C, e, C₁, rfl, .nil C, herror e hr⟩

/-! ### One file -/

/-- The licence that a row is imported as, where some county may be asked for. -/
def importable (atlas : Atlas) (columns : ColumnMap) (county : Option Text)
    (row : Option (List Text)) : Option LicenseRecord :=
  row.bind fun row =>
    if isElsewhere columns county row then none else (buildRecord atlas columns row).toOption

/-- The row is rejected. -/
def isRejected (atlas : Atlas) (columns : ColumnMap) (county : Option Text)
    (row : Option (List Text)) : Bool :=
  row.all fun row =>
    !isElsewhere columns county row && (buildRecord atlas columns row).toOption.isNone

/-- **What importing a list of rows does**, when nothing else has been gathered. -/
structure Contents.ImportsRows (atlas : Atlas) (runId : Uuid) (records : List LicenseRecord)
    (rejected : ℕ) (counts : RunCounts) (C : Contents) (r : Except AppError RunCounts)
    (C' : Contents) : Prop where
  /-- It does not fail when every licence has been imported. -/
  ok : ∀ later, r = .ok later → ∃ os, ImportsAll atlas runId records os C C' ∧
    counts.Gained os rejected later
  /-- It fails when one is refused, and the ones in the batches before that have been imported. -/
  error : ∀ e, r = .error e → C.Refuses atlas runId records ∧
    ∃ before after os, records = before ++ after ∧ ImportsAll atlas runId before os C C'

theorem flush_yields (runId : Uuid) (batch : List LicenseRecord) (counts : RunCounts) :
    Yields atlas i none C (flush atlas runId false batch counts)
      (C.ImportsRows atlas runId batch 0 counts) := by
  rw [flush, if_neg Bool.false_ne_true]
  refine Yields.transaction ((importEach_yields runId batch counts).mono ?_)
  rintro r C' ⟨hok, herror⟩
  refine ⟨fun counts' hr => ⟨fun later hr' => ?_, fun e hr' => ?_⟩,
    fun e hr => ⟨fun later hr' => ?_, fun e' hr' => ⟨herror e hr, [], batch, [], rfl, .nil C⟩⟩⟩
  · cases hr'
    exact hok counts' hr
  · cases hr'
  · cases hr'

theorem Contents.ImportsRows.then {runId : Uuid} {records records' : List LicenseRecord} {n n' : ℕ}
    {counts mid : RunCounts} {C₁ : Contents} {r : Except AppError RunCounts}
    (h : C.ImportsRows atlas runId records n counts (.ok mid) C₁)
    (h' : C₁.ImportsRows atlas runId records' n' mid r C') :
    C.ImportsRows atlas runId (records ++ records') (n + n') counts r C' := by
  obtain ⟨os, hall, hgained⟩ := h.ok mid rfl
  refine ⟨fun later hr => ?_, fun e hr => ?_⟩
  · obtain ⟨os', hall', hgained'⟩ := h'.ok later hr
    exact ⟨os ++ os', hall.append hall', hgained.trans hgained'⟩
  · obtain ⟨hrefuses, before, after, os', rfl, hbefore⟩ := h'.error e hr
    exact ⟨hall.refuses hrefuses, records ++ before, after, os ++ os', by simp,
      hall.append hbefore⟩

/-- A row is read, which is counted. -/
theorem Contents.ImportsRows.counting {runId : Uuid} {records : List LicenseRecord} {n m : ℕ}
    {counts mid : RunCounts} {r : Except AppError RunCounts} (hmid : counts.Gained [] m mid)
    (h : C.ImportsRows atlas runId records n mid r C') :
    C.ImportsRows atlas runId records (m + n) counts r C' :=
  (⟨fun later hr => by
      cases hr
      exact ⟨[], .nil C, hmid⟩,
    fun e hr => by cases hr⟩ : C.ImportsRows atlas runId [] m counts (.ok mid) C).then h

/-- A row of the county that is asked for joins the batch, or is rejected. -/
theorem importRows_some {options : ImportOptions} {columns : ColumnMap} {row : List Text}
    (hhere : ¬ isElsewhere columns options.county row = true) (runId : Uuid)
    (rows : List (Option (List Text))) (batch : List LicenseRecord) (counts : RunCounts) :
    ∃ batch' counts' n,
      importRows atlas runId options columns (some row :: rows) batch counts =
        (if batch'.length ≥ options.batchSize then do
          let counts ← flush atlas runId options.dryRun batch' counts'
          importRows atlas runId options columns rows [] counts
        else importRows atlas runId options columns rows batch' counts') ∧
      counts.Gained [] n counts' ∧
      batch ++ (some row :: rows).filterMap (importable atlas columns options.county) =
        batch' ++ rows.filterMap (importable atlas columns options.county) ∧
      (some row :: rows).countP (isRejected atlas columns options.county) =
        n + rows.countP (isRejected atlas columns options.county) := by
  cases hbuild : buildRecord atlas columns row with
  | ok record =>
    have hsome : importable atlas columns options.county (some row) = some record := by
      rw [importable, Option.bind_some, if_neg hhere, hbuild]
      rfl
    have hkept : ¬ isRejected atlas columns options.county (some row) = true := by
      rw [isRejected, Option.all_some, hbuild]
      simp [Except.toOption]
    refine ⟨batch ++ [record], { counts with read := counts.read + 1 }, 0, ?_, ⟨rfl, rfl, rfl⟩, ?_, ?_⟩
    · rw [importRows, if_neg hhere, hbuild]
    · rw [List.filterMap_cons_some hsome, List.append_assoc, List.singleton_append]
    · rw [List.countP_cons_of_neg hkept, Nat.zero_add]
  | error reason =>
    have hnone : importable atlas columns options.county (some row) = none := by
      rw [importable, Option.bind_some, if_neg hhere, hbuild]
      rfl
    have hrejected : isRejected atlas columns options.county (some row) = true := by
      rw [isRejected, Option.all_some, hbuild, eq_false_of_ne_true hhere]
      rfl
    refine ⟨batch, { counts with read := counts.read + 1, rejected := counts.rejected + 1 }, 1, ?_,
      ⟨rfl, rfl, rfl⟩, ?_, ?_⟩
    · rw [importRows, if_neg hhere, hbuild]
    · rw [List.filterMap_cons_none hnone]
    · rw [List.countP_cons_of_pos hrejected, Nat.add_comm]

theorem importRows_yields {options : ImportOptions} (hdry : options.dryRun = false)
    (runId : Uuid) (columns : ColumnMap) (rows : List (Option (List Text)))
    (batch : List LicenseRecord) (counts : RunCounts) :
    Yields atlas i none C (importRows atlas runId options columns rows batch counts)
      (C.ImportsRows atlas runId
        (batch ++ rows.filterMap (importable atlas columns options.county))
        (rows.countP (isRejected atlas columns options.county)) counts) := by
  induction rows generalizing C batch counts with
  | nil =>
    rw [importRows, List.filterMap_nil, List.append_nil]
    split
    · rename_i hempty
      obtain rfl := List.isEmpty_iff.mp hempty
      refine Yields.pure ⟨fun later hr => ?_, fun e hr => ?_⟩
      · cases hr
        exact ⟨[], .nil C, .refl counts⟩
      · cases hr
    · rw [hdry]
      exact flush_yields runId batch counts
  | cons row rows ih =>
    cases row with
    | none =>
      rw [importRows]
      refine (ih batch _).mono fun r C' h => ?_
      rw [List.countP_cons_of_pos rfl, List.filterMap_cons_none rfl, Nat.add_comm]
      refine Contents.ImportsRows.counting ?_ h
      exact ⟨rfl, rfl, rfl⟩
    | some row =>
      by_cases helsewhere : isElsewhere columns options.county row = true
      · rw [importRows, if_pos helsewhere]
        refine (ih batch _).mono fun r C' h => ?_
        have hnone : importable atlas columns options.county (some row) = none := by
          rw [importable, Option.bind_some, if_pos helsewhere]
        have hkept : ¬ isRejected atlas columns options.county (some row) = true := by
          rw [isRejected, Option.all_some, helsewhere]
          exact Bool.false_ne_true
        rw [List.filterMap_cons_none hnone, List.countP_cons_of_neg hkept, ← Nat.zero_add
          (List.countP _ rows)]
        refine Contents.ImportsRows.counting ?_ h
        exact ⟨rfl, rfl, rfl⟩
      · obtain ⟨batch', counts', n, hprogram, hgained, hrecords, hrejected⟩ :=
          @importRows_some atlas _ _ _ helsewhere runId rows batch counts
        rw [hprogram, hrecords, hrejected]
        split
        · refine Yields.seq ?_
          rw [hdry]
          refine (flush_yields runId batch' counts').mono fun r C₁ h₁ => ⟨fun mid hr => ?_, fun e hr => ?_⟩
          · subst hr
            refine (ih [] mid).mono fun r C' h => ?_
            have hthen := h₁.then h
            rw [List.nil_append, Nat.zero_add] at hthen
            exact hthen.counting hgained
          · subst hr
            refine ⟨fun later hr => ?_, fun e' hr => ?_⟩
            · cases hr
            · obtain ⟨hrefuses, before, after, os, hbefore, hall⟩ := h₁.error e rfl
              refine ⟨hrefuses.append _, before,
                after ++ rows.filterMap (importable atlas columns options.county), os, ?_, hall⟩
              rw [hbefore, List.append_assoc]
        · exact (ih batch' counts').mono fun r C' h => h.counting hgained

end Marketplace.Registry
