import Marketplace.Registry.Accounting
import Marketplace.Registry.ImportRuns

/-!
# Importing a file again

A licence whose content is known is only marked as seen (`Marketplace.Registry.Contents.SameButSeen`),
so that importing a file again does nothing else, if each licence has one content in it. Where a
file has two contents for one licence, each of them replaces the other, every time
(`Marketplace.Registry.reimport_iff`).
-/

namespace Marketplace.Registry

open ReadCommitted

variable {atlas : Atlas} {C C' C'' : Contents} {record other : LicenseRecord} {runId : Uuid}

/-! ### Licences that are seen again -/

/-- `license_records_license_no_key`. -/
def Contents.Numbered (C : Contents) : Prop :=
  ∀ k k' l l', C.licenses k = some l → C.licenses k' = some l' → l.licenseNo = l'.licenseNo → k = k'

/-- **The licence is there with this content.** -/
def Contents.Holds (C : Contents) (record : LicenseRecord) : Prop :=
  ∃ id l, C.licenses id = some l ∧ l.licenseNo = record.licenseNo ∧
    l.contentHash = record.contentHash

/-- The licence, perhaps seen again since. -/
def License.SameButSeen (l l' : License) : Prop :=
  l'.toLicenseRecord = l.toLicenseRecord ∧ l'.firstRunId = l.firstRunId

/-- **The same contents, but for the marks of when a licence was last seen**, and the runs. -/
structure Contents.SameButSeen (C C' : Contents) : Prop where
  licenses : ∀ id, Option.Rel License.SameButSeen (C.licenses id) (C'.licenses id)
  versions : C'.versions = C.versions
  contractors : C'.contractors = C.contractors
  trades : C'.trades = C.trades
  areas : C'.areas = C.areas
  queue : C'.queue = C.queue

theorem Contents.SameButSeen.of_licenses_eq (h : C'.licenses = C.licenses)
    (hversions : C'.versions = C.versions) (hcontractors : C'.contractors = C.contractors)
    (htrades : C'.trades = C.trades) (hareas : C'.areas = C.areas) (hqueue : C'.queue = C.queue) :
    C.SameButSeen C' where
  licenses id := by
    rw [h]
    cases C.licenses id with
    | none => exact .none
    | some l => exact .some ⟨rfl, rfl⟩
  versions := hversions
  contractors := hcontractors
  trades := htrades
  areas := hareas
  queue := hqueue

theorem Contents.SameButSeen.refl (C : Contents) : C.SameButSeen C :=
  .of_licenses_eq rfl rfl rfl rfl rfl rfl

theorem Contents.SameButSeen.trans (h : C.SameButSeen C') (h' : C'.SameButSeen C'') :
    C.SameButSeen C'' where
  licenses id := by
    have hl := h.licenses id
    have hl' := h'.licenses id
    revert hl hl'
    generalize C.licenses id = o, C'.licenses id = o', C''.licenses id = o''
    rintro (hl | _) hl'
    · cases hl' with
      | some hl' => exact .some ⟨hl'.1.trans hl.1, hl'.2.trans hl.2⟩
    · cases hl'
      exact .none
  versions := h'.versions.trans h.versions
  contractors := h'.contractors.trans h.contractors
  trades := h'.trades.trans h.trades
  areas := h'.areas.trans h.areas
  queue := h'.queue.trans h.queue

/-- Another record of a run is none of these contents. -/
theorem Contents.sameButSeen_setRun (C : Contents) (id : Uuid) (run : ImportRun) :
    C.SameButSeen (C.setRun id run) :=
  .of_licenses_eq rfl rfl rfl rfl rfl rfl

theorem Contents.SameButSeen.exists_license (h : C.SameButSeen C') {id : Uuid} {l : License}
    (hl : C.licenses id = some l) : ∃ l', C'.licenses id = some l' ∧ l.SameButSeen l' := by
  have hrel := h.licenses id
  rw [hl] at hrel
  revert hrel
  generalize C'.licenses id = o
  rintro (hsame | _)
  exact ⟨_, rfl, hsame⟩

theorem Contents.SameButSeen.exists_license' (h : C.SameButSeen C') {id : Uuid} {l' : License}
    (hl' : C'.licenses id = some l') : ∃ l, C.licenses id = some l ∧ l.SameButSeen l' := by
  have hrel := h.licenses id
  rw [hl'] at hrel
  revert hrel
  generalize C.licenses id = o
  rintro (hsame | _)
  exact ⟨_, rfl, hsame⟩

theorem Contents.SameButSeen.numbered (h : C.SameButSeen C') (hC : C.Numbered) : C'.Numbered := by
  intro k k' l₁ l₁' hk hk' hno
  obtain ⟨l, hl, hsame⟩ := h.exists_license' hk
  obtain ⟨l', hl', hsame'⟩ := h.exists_license' hk'
  rw [hsame.1, hsame'.1] at hno
  exact hC k k' l l' hl hl' hno

theorem Contents.SameButSeen.holds_iff (h : C.SameButSeen C') : C'.Holds record ↔ C.Holds record := by
  constructor
  · rintro ⟨id, l', hl', hno, hhash⟩
    obtain ⟨l, hl, hsame⟩ := h.exists_license' hl'
    rw [hsame.1] at hno hhash
    exact ⟨id, l, hl, hno, hhash⟩
  · rintro ⟨id, l, hl, hno, hhash⟩
    obtain ⟨l', hl', hsame⟩ := h.exists_license hl
    exact ⟨id, l', hl', by rw [hsame.1, hno], by rw [hsame.1, hhash]⟩

/-- Two contents of one licence are one. -/
theorem Contents.Holds.contentHash_eq (hC : C.Numbered) (h : C.Holds record) (h' : C.Holds other)
    (hno : record.licenseNo = other.licenseNo) : record.contentHash = other.contentHash := by
  obtain ⟨id, l, hl, hl_no, hhash⟩ := h
  obtain ⟨id', l', hl', hl'_no, hhash'⟩ := h'
  obtain rfl := hC id id' l l' hl hl' (by rw [hl_no, hno, hl'_no])
  cases hl.symm.trans hl'
  exact hhash.symm.trans hhash'

/-! ### One licence -/

/-- **What storing a licence does to the others**: nothing; and it then has its content. -/
structure Contents.Stores (record : LicenseRecord) (C C' : Contents) : Prop where
  numbered : C.Numbered → C'.Numbered
  holds : C'.Holds record
  others : ∀ other, other.licenseNo ≠ record.licenseNo → C.Holds other → C'.Holds other

/-- The licence of a number is written. -/
theorem Contents.stores_of_update (id : Uuid) (l' : License)
    (hwrite : C'.licenses = Function.update C.licenses id (some l'))
    (hno : l'.licenseNo = record.licenseNo) (hhash : l'.contentHash = record.contentHash)
    (hid : ∀ k l, C.licenses k = some l → l.licenseNo = record.licenseNo → C.Numbered → k = id)
    (hrow : ∀ l, C.licenses id = some l → l.licenseNo = record.licenseNo) : C.Stores record C' where
  numbered hC := by
    intro k k' l₁ l₁' hk hk' hsame
    rw [hwrite, Function.update_apply] at hk hk'
    split at hk <;> split at hk'
    · rename_i heq heq'
      rw [heq, heq']
    · rename_i heq _
      cases hk
      rw [heq, hid k' l₁' hk' (hsame.symm.trans hno) hC]
    · rename_i _ heq'
      cases hk'
      rw [heq', hid k l₁ hk (hsame.trans hno) hC]
    · exact hC k k' l₁ l₁' hk hk' hsame
  holds := ⟨id, l', by rw [hwrite, Function.update_self], hno, hhash⟩
  others other hother := by
    rintro ⟨k, l, hl, hl_no, hl_hash⟩
    refine ⟨k, l, ?_, hl_no, hl_hash⟩
    rw [hwrite, Function.update_of_ne, hl]
    rintro rfl
    exact hother (hl_no.symm.trans (hrow l hl))

theorem Contents.Upserts.stores {stored : StoredLicense}
    (h : C.Upserts runId record (.ok stored) C') : C.Stores record C' := by
  cases h with
  | @unchanged id l now hl hno hhash =>
    refine Contents.stores_of_update id _ rfl hno hhash (fun k l₁ hk hk_no hC => ?_)
      fun l₁ hl₁ => ?_
    · exact hC k id l₁ l hk hl (hk_no.trans hno.symm)
    · cases hl.symm.trans hl₁
      exact hno
  | @updated id l l' now hl hno hhash hl' =>
    have hmerge := (License.update_eq hl').1
    refine Contents.stores_of_update id l' rfl (by rw [hmerge]; exact hno)
      (by rw [hmerge]; rfl) (fun k l₁ hk hk_no hC => ?_) fun l₁ hl₁ => ?_
    · exact hC k id l₁ l hk hl (hk_no.trans hno.symm)
    · cases hl.symm.trans hl₁
      exact hno
  | @inserted id now hno hid hchecks =>
    refine Contents.stores_of_update id _ rfl rfl rfl (fun k l₁ hk hk_no _ => ?_) fun l₁ hl₁ => ?_
    · exact absurd hk_no (hno k l₁ hk)
    · rw [hid] at hl₁
      cases hl₁

/-- **Importing a licence stores it.** -/
theorem Contents.Imports.stores {o : UpsertOutcome}
    (h : C.Imports atlas runId record (.ok o) C') : C.Stores record C' := by
  obtain ⟨stored, C₁, hstored, -, hsame, -⟩ := h.exists_upserts
  have hstores := hstored.stores
  have hlicenses := hsame.licenses
  refine ⟨fun hC => ?_, ?_, fun other hother hheld => ?_⟩
  · rw [Contents.Numbered, hlicenses]
    exact hstores.numbered hC
  · rw [Contents.Holds, hlicenses]
    exact hstores.holds
  · rw [Contents.Holds, hlicenses]
    exact hstores.others other hother hheld

/-- **A licence whose content is known is only marked.** -/
theorem Contents.Imports.sameButSeen (h : C.Imports atlas runId record (.ok .unchanged) C') :
    C.Holds record ∧ C.SameButSeen C' := by
  obtain ⟨stored, C₁, hstored, houtcome, -, hsame⟩ := h.exists_upserts
  obtain rfl := hsame rfl
  cases hstored with
  | @unchanged id l now hl hno hhash =>
    refine ⟨⟨id, l, hl, hno, hhash⟩, fun k => ?_, rfl, rfl, rfl, rfl, rfl⟩
    have hrow : (C.setLicense id (l.touch runId now)).licenses k =
        if k = id then some (l.touch runId now) else C.licenses k := Function.update_apply _ _ _ _
    rw [hrow]
    split
    · rename_i hk
      rw [hk, hl]
      exact .some ⟨rfl, rfl⟩
    · cases C.licenses k with
      | none => exact .none
      | some l => exact .some ⟨rfl, rfl⟩
  | updated => cases houtcome
  | inserted => cases houtcome

/-- A licence with this content is there, and the import finds it so. -/
theorem Contents.Imports.eq_unchanged (hC : C.Numbered) (hheld : C.Holds record)
    {r : Except AppError UpsertOutcome} (h : C.Imports atlas runId record r C') :
    r = .ok .unchanged := by
  obtain ⟨id, l, hl, hno, hhash⟩ := hheld
  -- Only the branch of a known content is about a licence with this number and this content.
  have hupserts : ∀ {r C₁}, C.Upserts runId record r C₁ →
      ∃ id, r = .ok ⟨id, .unchanged⟩ := by
    intro r C₁ h
    cases h with
    | @unchanged id => exact ⟨id, rfl⟩
    | @updated id' l₁ _ _ hl₁ hno₁ hhash₁ | @notUpdated id' l₁ _ _ hl₁ hno₁ hhash₁ =>
      obtain rfl := hC id id' l l₁ hl hl₁ (hno.trans hno₁.symm)
      cases hl.symm.trans hl₁
      exact absurd hhash hhash₁
    | inserted hno₁ | notInserted hno₁ => exact absurd hno (hno₁ id l hl)
  cases h with
  | unchanged => rfl
  | projected hstored hnew | notListed hstored hnew =>
    obtain ⟨id, hid⟩ := hupserts hstored
    cases hid
    exact absurd rfl hnew
  | notStored hstored =>
    obtain ⟨id, hid⟩ := hupserts hstored
    cases hid

/-! ### Several licences -/

/-- **Each licence has one content** among some records. -/
def Consistent (records : List LicenseRecord) : Prop :=
  ∀ a ∈ records, ∀ b ∈ records, a.licenseNo = b.licenseNo → a.contentHash = b.contentHash

instance (records : List LicenseRecord) : Decidable (Consistent records) :=
  inferInstanceAs (Decidable (∀ _ ∈ _, _))

variable {records : List LicenseRecord} {os : List UpsertOutcome}

theorem Contents.ImportsAll.numbered (h : Contents.ImportsAll atlas runId records os C C')
    (hC : C.Numbered) : C'.Numbered := by
  induction h with
  | nil => exact hC
  | cons hrecord _ ih => exact ih (hrecord.stores.numbered hC)

/-- What is there stays, if the records have the same content for it. -/
theorem Contents.ImportsAll.holds (h : Contents.ImportsAll atlas runId records os C C')
    (hsame : ∀ a ∈ records, a.licenseNo = record.licenseNo → a.contentHash = record.contentHash)
    (hheld : C.Holds record) : C'.Holds record := by
  induction h with
  | nil => exact hheld
  | @cons first records o os C C₁ C₂ hfirst _ ih =>
    refine ih (fun a ha => hsame a (List.mem_cons_of_mem _ ha)) ?_
    by_cases hno : first.licenseNo = record.licenseNo
    · obtain ⟨id, l, hl, hl_no, hl_hash⟩ := hfirst.stores.holds
      exact ⟨id, l, hl, hl_no.trans hno, hl_hash.trans (hsame first List.mem_cons_self hno)⟩
    · exact hfirst.stores.others record (fun heq => hno heq.symm) hheld

/-- **Records that agree are all stored**, once they have been imported. -/
theorem Contents.ImportsAll.holds_of_consistent
    (h : Contents.ImportsAll atlas runId records os C C') (hsame : Consistent records) :
    ∀ a ∈ records, C'.Holds a := by
  induction h with
  | nil => exact fun a ha => absurd ha List.not_mem_nil
  | @cons first records o os C C₁ C₂ hfirst hrest ih =>
    intro a ha
    rcases List.mem_cons.mp ha with rfl | ha
    · refine hrest.holds (fun b hb hno => ?_) hfirst.stores.holds
      exact hsame b (List.mem_cons_of_mem _ hb) a List.mem_cons_self hno
    · exact ih (fun a ha b hb => hsame a (List.mem_cons_of_mem _ ha) b (List.mem_cons_of_mem _ hb))
        a ha

/-- **Records that are stored are only marked**, and none of them is refused. -/
theorem Contents.ImportsAll.of_held (h : Contents.ImportsAll atlas runId records os C C')
    (hC : C.Numbered) (hheld : ∀ a ∈ records, C.Holds a) :
    (∀ o ∈ os, o = .unchanged) ∧ C.SameButSeen C' := by
  induction h with
  | nil C => exact ⟨fun o ho => absurd ho List.not_mem_nil, .refl C⟩
  | @cons first records o os C C₁ C₂ hfirst _ ih =>
    have hunchanged := hfirst.eq_unchanged hC (hheld first List.mem_cons_self)
    cases hunchanged
    have hseen := hfirst.sameButSeen.2
    obtain ⟨hall, hrest⟩ := ih (hseen.numbered hC) fun a ha =>
      hseen.holds_iff.mpr (hheld a (List.mem_cons_of_mem _ ha))
    refine ⟨fun o ho => ?_, hseen.trans hrest⟩
    rcases List.mem_cons.mp ho with rfl | ho
    · rfl
    · exact hall o ho

theorem Contents.not_refuses_of_held (hC : C.Numbered) (hheld : ∀ a ∈ records, C.Holds a) :
    ¬ C.Refuses atlas runId records := by
  rintro ⟨before, record, after, os, C₁, e, C₂, rfl, hbefore, hrecord⟩
  have hseen := (hbefore.of_held hC fun a ha => hheld a (List.mem_append_left _ ha)).2
  have hrecord_held := hseen.holds_iff.mpr
    (hheld record (List.mem_append_right _ List.mem_cons_self))
  exact nomatch hrecord.eq_unchanged (hseen.numbered hC) hrecord_held

/-- Records that are only marked were stored. -/
theorem Contents.ImportsAll.held_of_unchanged (h : Contents.ImportsAll atlas runId records os C C')
    (hall : ∀ o ∈ os, o = .unchanged) : ∀ a ∈ records, C.Holds a := by
  induction h with
  | nil => exact fun a ha => absurd ha List.not_mem_nil
  | @cons first records o os C C₁ C₂ hfirst _ ih =>
    obtain rfl := hall o List.mem_cons_self
    obtain ⟨hfirst_held, hseen⟩ := hfirst.sameButSeen
    intro a ha
    rcases List.mem_cons.mp ha with rfl | ha
    · exact hfirst_held
    · exact hseen.holds_iff.mp (ih (fun o ho => hall o (List.mem_cons_of_mem _ ho)) a ha)

/-- The counts of a run that has only marked licences. -/
theorem RunCounts.Gained.unchanged_iff {n : ℕ} {later : RunCounts}
    (h : RunCounts.Gained os n {} later) :
    later.inserted = 0 ∧ later.updated = 0 ↔ ∀ o ∈ os, o = .unchanged := by
  rw [h.inserted, h.updated, Nat.zero_add, Nat.zero_add, List.count_eq_zero, List.count_eq_zero]
  constructor
  · rintro ⟨hinserted, hupdated⟩ o ho
    cases o with
    | inserted => exact absurd ho hinserted
    | updated => exact absurd ho hupdated
    | unchanged => rfl
  · exact fun hall => ⟨fun ho => (nomatch hall _ ho), fun ho => (nomatch hall _ ho)⟩

/-! ### A file, twice -/

/-- The two runs import the same rows. -/
structure ImportOptions.SameRows (options again : ImportOptions) : Prop where
  headers : again.file.headers = options.file.headers
  rows : again.file.rows = options.file.rows
  county : again.county = options.county

/-- The licences of a file, if it can be imported. -/
def ImportOptions.licenses (atlas : Atlas) (options : ImportOptions) : List LicenseRecord :=
  match ColumnMap.build atlas options.file.headers with
  | .ok columns => options.records atlas columns
  | .error _ => []

/-- **The second run has nothing to do**: it neither inserts nor updates a licence, and leaves
everything as it was, but for the marks. -/
def Idles (r : Except AppError RunCounts) (C C' : Contents) : Prop :=
  (∃ counts, r = .ok counts ∧ counts.inserted = 0 ∧ counts.updated = 0) ∧ C.SameButSeen C'

/-- **A file that has been imported has nothing to do again** if each licence has one content in it,
and only then. -/
theorem Contents.RunsImport.idles_iff {options again : ImportOptions} {counts : RunCounts}
    {r : Except AppError RunCounts} (hsame : options.SameRows again) (hC : C.Numbered)
    (hfirst : C.RunsImport atlas options (.ok counts) C')
    (hname : isBlank again.file.name = false) (hnew : ¬ C'.HasImported again)
    (hsecond : C'.RunsImport atlas again r C'') :
    Idles r C' C'' ↔ Consistent (options.licenses atlas) := by
  cases hfirst with
  | @finished columns runId _ C₁ now hbegins hid hrows =>
    obtain ⟨hbuild, hcounty⟩ := hbegins.accepts
    have haccepts : again.Accepts atlas columns :=
      ⟨by rw [hsame.headers, hbuild], by rw [hsame.county]; exact hcounty⟩
    have hlicenses : options.licenses atlas = options.records atlas columns := by
      rw [ImportOptions.licenses, hbuild]
    obtain ⟨os, hall, -⟩ := hrows.ok counts rfl
    have hnumbered := hall.numbered ((C.sameButSeen_setRun runId options.run).numbered hC)
    rw [hlicenses]
    cases hsecond with
    | refused h => exact absurd ⟨haccepts, hname, hnew⟩ (h columns)
    | @finished columns' runId' _ C₂ now' hbegins' hid' hrows' =>
      obtain rfl := Except.ok.inj (haccepts.1.symm.trans hbegins'.accepts.1)
      have hrecords : again.records atlas columns = options.records atlas columns := by
        rw [ImportOptions.records, ImportOptions.records, hsame.rows, hsame.county]
      rw [hrecords] at hrows'
      -- Where the second run starts from, what the first one has imported is there.
      have hstart := (C₁.sameButSeen_setRun runId (options.run.finish (finishedAs (.ok counts))
        (countsOf (.ok counts)) (errorOf (.ok counts)) now)).trans
          (Contents.sameButSeen_setRun _ runId' again.run)
      have hnumbered' := hstart.numbered hnumbered
      constructor
      · rintro ⟨⟨counts', rfl, hzero⟩, -⟩
        obtain ⟨os', hall', hgained⟩ := hrows'.ok counts' rfl
        have hheld := hall'.held_of_unchanged (hgained.unchanged_iff.mp hzero)
        exact fun a ha b hb hno => (hheld a ha).contentHash_eq hnumbered' (hheld b hb) hno
      · intro hconsistent
        have hheld : ∀ a ∈ options.records atlas columns, _ := fun a ha =>
          hstart.holds_iff.mpr (hall.holds_of_consistent hconsistent a ha)
        cases r with
        | error e =>
          exact absurd (hrows'.error e rfl).1 (Contents.not_refuses_of_held hnumbered' hheld)
        | ok counts' =>
          obtain ⟨os', hall', hgained⟩ := hrows'.ok counts' rfl
          obtain ⟨hunchanged, hseen⟩ := hall'.of_held hnumbered' hheld
          refine ⟨⟨counts', rfl, hgained.unchanged_iff.mpr hunchanged⟩, ?_⟩
          exact ((Contents.sameButSeen_setRun _ runId' again.run).trans hseen).trans
            (Contents.sameButSeen_setRun _ _ _)

/-- **Importing a file again does nothing** but mark its licences as seen, from any database, if each
licence has one content in the file, and only then. -/
theorem reimport_iff (atlas : Atlas) (i j : ℕ) {options again : ImportOptions}
    (hsame : options.SameRows again) (hdry : options.dryRun = false) (hdry' : again.dryRun = false)
    (hname : isBlank again.file.name = false) (hC : C.Numbered) :
    Yields atlas i none C (runImport atlas options) fun first C' =>
      ∀ counts, first = .ok counts → ¬ C'.HasImported again →
        Yields atlas j none C' (runImport atlas again) fun r C'' =>
          Idles r C' C'' ↔ Consistent (options.licenses atlas) := by
  refine (runImport_yields hdry).mono ?_
  rintro _ C' hfirst counts rfl hnew
  exact (runImport_yields hdry').mono fun r C'' hsecond =>
    hfirst.idles_iff hsame hC hname hnew hsecond

/-- A licence, and what it has become. -/
def renewed : ImportOptions where
  source := .cslbMasterList
  file := ⟨"register.csv".toList, [], registerHeaders,
    [some ["1".toList, "Reed Plumbing".toList, "EXPIRED".toList],
      some ["1".toList, "Reed Plumbing".toList, "CLEAR".toList]]⟩

/-- The same rows, in another file. -/
def ImportOptions.copied (options : ImportOptions) : ImportOptions :=
  { options with file := { options.file with sha256 := '2' :: options.file.sha256 } }

/-- The licence alone, as it was. -/
def registered : ImportOptions :=
  { renewed with file := { renewed.file with rows := renewed.file.rows.take 1 } }

/-- A licence that is imported twice. -/
theorem reimport_iff_registered :
    Yields .plain 0 none (Db.published {}) (runImport .plain registered) fun first C' =>
      ∀ counts, first = .ok counts → ¬ C'.HasImported registered.copied →
        Yields .plain 1 none C' (runImport .plain registered.copied) fun r C'' => Idles r C' C'' := by
  have hC : (Db.published {}).Numbered := fun _ _ _ _ h => nomatch h
  have hsame : registered.SameRows registered.copied := ⟨rfl, rfl, rfl⟩
  refine (reimport_iff .plain 0 1 hsame rfl rfl (by decide) hC).mono ?_
  intro first C' h counts hok hnew
  exact (h counts hok hnew).mono fun r C'' hiff => hiff.mpr (by decide)

/-- **A file with two contents of a licence updates it twice**, each time that it is imported. -/
theorem reimported_updates : ∃ c, Reachable (registry .plain) anyQuery (.initial {}) c ∧
    c.Served 0 { request := .importFile renewed }
      (.ok (.imported { read := 2, inserted := 1, updated := 1 })) ∧
    c.Served 1 { request := .importFile renewed.copied }
      (.ok (.imported { read := 2, updated := 2 })) := by
  obtain ⟨c, hc, hserved⟩ := exists_of_exec (registry .plain)
    (.arrive 0 { request := .importFile renewed } :: List.replicate 30 (.run 0) ++
      .arrive 1 { request := .importFile renewed.copied } :: List.replicate 27 (.run 1))
    (.initial {})
    (fun c => decide (c.Served 0 { request := .importFile renewed }
        (.ok (.imported { read := 2, inserted := 1, updated := 1 }))) &&
      decide (c.Served 1 { request := .importFile renewed.copied }
        (.ok (.imported { read := 2, updated := 2 }))))
    (by decide +kernel)
  obtain ⟨hfirst, hsecond⟩ := Bool.and_eq_true_iff.mp hserved
  exact ⟨c, hc, of_decide_eq_true hfirst, of_decide_eq_true hsecond⟩

end Marketplace.Registry
