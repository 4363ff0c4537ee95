import Marketplace.Registry.Publishing
import Marketplace.Registry.Yields

/-!
# What storing a licence does

Each statement and each program that an import is made of is a relation between the contents before
it and the contents after it: storing a licence (`Marketplace.Registry.Contents.Upserts`), creating or
refreshing its listing (`Marketplace.Registry.Contents.Lists`), replacing the trades of the register,
publishing a point and computing the badge. That the programs do what the relations say is what
the lemmas here prove, for whatever contents they find.
-/

namespace Marketplace.Registry

open ReadCommitted

/-! ### Changed contents -/

namespace Contents

/-- Another version of a licence. -/
def setLicense (C : Contents) (id : Uuid) (l : License) : Contents :=
  { C with licenses := Function.update C.licenses id (some l) }

/-- A version of a licence that some run has seen, unless there is one of this content. -/
def recordVersion (C : Contents) (id : Uuid) (record : LicenseRecord) (runId : Uuid) : Contents :=
  { C with
    versions := Table.overlay C.versions (id, record.contentHash)
      (Table.inserting ⟨runId, record.raw⟩ (C.versions (id, record.contentHash))).2 }

/-- Another version of a listing. -/
def setListing (C : Contents) (id : Uuid) (c : Contractor) : Contents :=
  { C with contractors := Function.update C.contractors id (some c) }

/-- A listing, if it is there, once it has been written. -/
def change (C : Contents) (id : Uuid) (f : Contractor → Contractor) : Contents :=
  (C.contractors id).elim C fun c => C.setListing id (f c)

/-- Another version of a job. -/
def setJob (C : Contents) (id : Uuid) (job : GeocodeJob) : Contents :=
  { C with queue := Function.update C.queue id (some job) }

/-- Other trades of the register for a listing. -/
def setTrades (C : Contents) (id : Uuid) (tradeIds : List Uuid) : Contents :=
  { C with
    trades := fun key =>
      if key.contractorId = id ∧ key.source = .cslb then
        if key.tradeId ∈ tradeIds then some () else none
      else C.trades key }

/-- The licence of a listing. -/
def licenseOf (C : Contents) (c : Contractor) : Option License :=
  c.licenseRecordId.bind C.licenses

/-- The address of a listing. -/
def addressFor (C : Contents) (id : Uuid) : Option Text :=
  (C.contractors id).bind fun c => c.geocodableAddress (C.licenseOf c)

/-- The badge of a listing, computed at a time. -/
def recheck (atlas : Atlas) (id : Uuid) (now : Instant) (C : Contents) : Contents :=
  C.change id fun c => (Change.verification
    (decideBadge atlas (today now) c.isClaimed (C.licenseOf c)) now (today now)).apply c

section

variable {C : Contents} {id : Uuid} {l : License} {c : Contractor} {f : Contractor → Contractor}

@[simp] theorem change_licenses : (C.change id f).licenses = C.licenses := by
  rw [change]
  cases C.contractors id <;> rfl

@[simp] theorem change_versions : (C.change id f).versions = C.versions := by
  rw [change]
  cases C.contractors id <;> rfl

@[simp] theorem change_runs : (C.change id f).runs = C.runs := by
  rw [change]
  cases C.contractors id <;> rfl

@[simp] theorem change_trades : (C.change id f).trades = C.trades := by
  rw [change]
  cases C.contractors id <;> rfl

@[simp] theorem change_areas : (C.change id f).areas = C.areas := by
  rw [change]
  cases C.contractors id <;> rfl

@[simp] theorem change_queue : (C.change id f).queue = C.queue := by
  rw [change]
  cases C.contractors id <;> rfl

theorem change_of_row (h : C.contractors id = some c) : C.change id f = C.setListing id (f c) := by
  rw [change, h]
  rfl

theorem change_contractors (k : Uuid) :
    (C.change id f).contractors k = if k = id then (C.contractors id).map f else C.contractors k := by
  rw [change]
  cases hrow : C.contractors id with
  | none =>
    split
    · rename_i hk
      rw [hk]
      exact hrow
    · rfl
  | some c => exact Function.update_apply _ _ _ _

end

end Contents

/-! ### Licences -/

section

variable {atlas : Atlas} {i : ℕ} {P C : Contents}

theorem licenseNumbered_cases {db : Db} (h : db.licenses.seen i = C.licenses) (licenseNo : Text) :
    db.licenseNumbered i licenseNo = none ∧
        (∀ k l, C.licenses k = some l → l.licenseNo ≠ licenseNo) ∨
      ∃ id l, db.licenseNumbered i licenseNo = some (id, l.contentHash) ∧
        C.licenses id = some l ∧ l.licenseNo = licenseNo := by
  have hrow : ∀ k, db.licenses.row i k = C.licenses k := fun k => congrFun h k
  cases hhead : (db.licenses.scan i fun _ l => l.licenseNo = licenseNo).head? with
  | none =>
    refine Or.inl ⟨by rw [Db.licenseNumbered, hhead]; rfl, fun k l hl hno => ?_⟩
    have hmem : k ∈ db.licenses.scan i fun _ l => l.licenseNo = licenseNo :=
      Table.mem_scan.mpr ⟨l, (hrow k).trans hl, decide_eq_true hno⟩
    rw [List.head?_eq_none_iff.mp hhead] at hmem
    cases hmem
  | some id =>
    obtain ⟨l, hl, hno⟩ := Table.mem_scan.mp (List.mem_of_mem_head? hhead)
    refine Or.inr ⟨id, l, ?_, (hrow id).symm.trans hl, of_decide_eq_true hno⟩
    rw [Db.licenseNumbered, hhead, Option.bind_some, hl]
    rfl

/-- **What storing a licence does.** -/
inductive Contents.Upserts (runId : Uuid) (record : LicenseRecord) (C : Contents) :
    Except AppError StoredLicense → Contents → Prop
  /-- The licence is there with this content. -/
  | unchanged {id : Uuid} {l : License} {now : Instant} (hl : C.licenses id = some l)
      (hno : l.licenseNo = record.licenseNo) (hhash : l.contentHash = record.contentHash) :
      C.Upserts runId record (.ok ⟨id, .unchanged⟩) (C.setLicense id (l.touch runId now))
  /-- The licence is there with another content. -/
  | updated {id : Uuid} {l l' : License} {now : Instant} (hl : C.licenses id = some l)
      (hno : l.licenseNo = record.licenseNo) (hhash : l.contentHash ≠ record.contentHash)
      (hl' : l.update record runId now = some l') :
      C.Upserts runId record (.ok ⟨id, .updated⟩)
        ((C.setLicense id l').recordVersion id record runId)
  /-- There is no licence with this number. -/
  | inserted {id : Uuid} {now : Instant}
      (hno : ∀ k l, C.licenses k = some l → l.licenseNo ≠ record.licenseNo)
      (hid : C.licenses id = none) (hchecks : record.checks = true) :
      C.Upserts runId record (.ok ⟨id, .inserted⟩)
        ((C.setLicense id (.new record hchecks runId now)).recordVersion id record runId)
  /-- The licence is there, and the new content may not be stored. -/
  | notUpdated {id : Uuid} {l : License} {now : Instant} {e : AppError}
      (hl : C.licenses id = some l) (hno : l.licenseNo = record.licenseNo)
      (hhash : l.contentHash ≠ record.contentHash) (hl' : l.update record runId now = none) :
      C.Upserts runId record (.error e) C
  /-- There is none, and it may not be stored. -/
  | notInserted {e : AppError}
      (hno : ∀ k l, C.licenses k = some l → l.licenseNo ≠ record.licenseNo)
      (hchecks : record.checks = false) : C.Upserts runId record (.error e) C

theorem appendVersion_yields {α : Type} {runId id : Uuid} {record : LicenseRecord}
    {k : Unit → Registering α} {post : Except AppError α → Contents → Prop}
    (h : Yields atlas i (some P) (C.recordVersion id record runId) (k ()) post) :
    Yields atlas i (some P) C (appendVersion runId id record >>= k) post := by
  refine Yields.query fun db hdb => ?_
  obtain ⟨b, db', hq, hdb'⟩ := hdb.addVersion id record.contentHash ⟨runId, record.raw⟩
  exact ⟨b, db', _, hq, hdb', h⟩

theorem upsert_yields (runId : Uuid) (record : LicenseRecord) :
    Yields atlas i (some P) C (upsert runId record) (C.Upserts runId record) := by
  refine Yields.clock fun now => Yields.look fun db hdb => ?_
  rcases licenseNumbered_cases hdb.licenses_eq record.licenseNo with
    ⟨hnone, hno⟩ | ⟨id, l, hsome, hl, hno⟩
  · rw [hnone]
    refine Yields.query fun db hdb => ?_
    by_cases hchecks : record.checks = true
    · have hclash : ∀ k l, db.licenses.seen i k = some l →
          decide (l.licenseNo = record.licenseNo) = false := by
        intro k l hl
        rw [hdb.licenses_eq] at hl
        exact decide_eq_false (hno k l hl)
      obtain ⟨id, t, ht, hid, hseen⟩ :=
        hdb.admits.licenses.insertFresh_new (.new record hchecks runId now) hclash
      rw [hdb.licenses_eq] at hid hseen
      have hrun : (LicenseStatement.insert record runId now).run .tx i db.licenses =
          some (some id, t) := by
        rw [LicenseStatement.run, dif_pos hchecks]
        exact ht
      obtain ⟨db', hq, hdb'⟩ := hdb.license hrun
      rw [hseen] at hdb'
      exact ⟨some id, db', _, hq, hdb',
        appendVersion_yields (Yields.pure (.inserted hno hid hchecks))⟩
    · have hrun : (LicenseStatement.insert record runId now).run .tx i db.licenses =
          some (none, db.licenses) := by rw [LicenseStatement.run, dif_neg hchecks]
      obtain ⟨db', hq, hdb'⟩ := hdb.license hrun
      rw [hdb.licenses_eq] at hdb'
      exact ⟨none, db', _, hq, hdb',
        Yields.throw (.notInserted hno (eq_false_of_ne_true hchecks))⟩
  · rw [hsome]
    show Yields atlas i (some P) C
      (if l.contentHash = record.contentHash then _ else _ : Registering StoredLicense) _
    split
    · rename_i hhash
      refine Yields.query fun db hdb => ?_
      obtain ⟨t, ht, hseen⟩ := hdb.admits.licenses.modify id
        (Table.updating fun l => some ((), l.touch runId now))
      rw [hdb.licenses_eq, hl] at ht hseen
      obtain ⟨db', hq, hdb'⟩ := hdb.license (q := .touch id runId now) ht
      rw [hseen] at hdb'
      exact ⟨_, db', _, hq, hdb', Yields.pure (.unchanged hl hno hhash)⟩
    · rename_i hhash
      refine Yields.query fun db hdb => ?_
      obtain ⟨t, ht, hseen⟩ := hdb.admits.licenses.modify id
        (Table.checking (fun _ => true) fun l => l.update record runId now)
      rw [hdb.licenses_eq, hl] at ht hseen
      obtain ⟨db', hq, hdb'⟩ := hdb.license (q := .update id record runId now) ht
      rw [hseen] at hdb'
      cases hl' : l.update record runId now with
      | some l' =>
        have hanswer : Table.checking (fun _ => true) (fun l => License.update record runId now l)
            (some l) = (some true, some l') := by simp [Table.checking, hl']
        rw [hanswer] at hq hdb'
        exact ⟨some true, db', _, hq, hdb',
          appendVersion_yields (Yields.pure (.updated hl hno hhash hl'))⟩
      | none =>
        have hanswer : Table.checking (fun _ => true) (fun l => License.update record runId now l)
            (some l) = (none, none) := by simp [Table.checking, hl']
        rw [hanswer] at hq hdb'
        exact ⟨none, db', _, hq, hdb', Yields.throw (.notUpdated hl hno hhash hl')⟩

/-! ### Listings -/

/-- An update of a listing that may be stored. -/
theorem updateListing_yields {w : Option Contents} {α : Type} {id : Uuid} {change : Change}
    {k : Unit → Registering α} {post : Except AppError α → Contents → Prop}
    (hchecks : change.checks = true)
    (h : Yields atlas i w (C.change id change.apply) (k ()) post) :
    Yields atlas i w C (updateListing (modeIn w) id change >>= k) post := by
  refine Yields.andThen (Yields.query fun db hdb => ?_)
  obtain ⟨t, ht, hseen⟩ := hdb.admits.contractors.modify id (Table.checking (fun _ => true)
    fun c => if change.checks then some (change.apply c) else none)
  rw [hdb.contractors_eq] at ht hseen
  obtain ⟨db', hq, hdb'⟩ := hdb.listing (q := .update id change) ht
  cases hrow : C.contractors id with
  | none =>
    rw [hrow] at hq hseen
    have hsame : { C with contractors := t.seen i } = C := by rw [hseen]; rfl
    rw [hsame] at hdb'
    rw [Contents.change, hrow] at h
    exact ⟨some false, db', _, hq, hdb', Yields.pure ⟨(), rfl, h⟩⟩
  | some c =>
    have hanswer : Table.checking (fun _ => true)
        (fun c => if change.checks then some (change.apply c) else none) (some c) =
          (some true, some (change.apply c)) := by simp [Table.checking, hchecks]
    rw [hrow, hanswer] at hq hseen
    rw [hseen] at hdb'
    rw [Contents.change_of_row hrow] at h
    exact ⟨some true, db', _, hq, hdb', Yields.pure ⟨(), rfl, h⟩⟩

/-- An update of a listing that may not be stored. -/
theorem updateListing_refused {w : Option Contents} {α : Type} {id : Uuid} {change : Change}
    {c : Contractor} {k : Unit → Registering α} {post : Except AppError α → Contents → Prop}
    (hchecks : change.checks = false) (hrow : C.contractors id = some c)
    (h : ∀ e, post (.error e) C) :
    Yields atlas i w C (updateListing (modeIn w) id change >>= k) post := by
  refine Yields.seq (Yields.query fun db hdb => ?_)
  obtain ⟨t, ht, hseen⟩ := hdb.admits.contractors.modify id (Table.checking (fun _ => true)
    fun c => if change.checks then some (change.apply c) else none)
  rw [hdb.contractors_eq, hrow] at ht hseen
  obtain ⟨db', hq, hdb'⟩ := hdb.listing (q := .update id change) ht
  have hanswer : Table.checking (fun _ => true)
      (fun c => if change.checks then some (change.apply c) else none) (some c) =
        (none, none) := by simp [Table.checking, hchecks]
  rw [hanswer] at hq hseen
  have hsame : { C with contractors := t.seen i } = C := by rw [hseen]; rfl
  rw [hsame] at hdb'
  refine ⟨none, db', _, hq, hdb', Yields.throw ⟨fun b hr => ?_, fun e _ => h e⟩⟩
  cases hr

theorem listingOf_cases {db : Db} (h : db.contractors.seen i = C.contractors)
    (licenseRecordId : Uuid) :
    db.listingOf i licenseRecordId = none ∧
        (∀ k c, C.contractors k = some c → c.licenseRecordId ≠ some licenseRecordId) ∨
      ∃ id c, db.listingOf i licenseRecordId = some (id, c) ∧
        C.contractors id = some c ∧ c.licenseRecordId = some licenseRecordId := by
  have hrow : ∀ k, db.contractors.row i k = C.contractors k := fun k => congrFun h k
  cases hhead : (db.contractors.scan i fun _ c => c.licenseRecordId = some licenseRecordId).head? with
  | none =>
    refine Or.inl ⟨by rw [Db.listingOf, hhead]; rfl, fun k c hc hlicense => ?_⟩
    have hmem : k ∈ db.contractors.scan i fun _ c => c.licenseRecordId = some licenseRecordId :=
      Table.mem_scan.mpr ⟨c, (hrow k).trans hc, decide_eq_true hlicense⟩
    rw [List.head?_eq_none_iff.mp hhead] at hmem
    cases hmem
  | some id =>
    obtain ⟨c, hc, hlicense⟩ := Table.mem_scan.mp (List.mem_of_mem_head? hhead)
    refine Or.inr ⟨id, c, ?_, (hrow id).symm.trans hc, of_decide_eq_true hlicense⟩
    rw [Db.listingOf, hhead, Option.bind_some, hc]
    rfl

/-- A listing, refreshed from licence data. -/
def Contractor.refreshed (facts : SourceFacts) (c : Contractor) : Contractor :=
  { c with
    displayName := if c.isClaimed then c.displayName else facts.displayName
    postalCode := facts.postalCode
    regionId := if c.postalCode = facts.postalCode then c.regionId else facts.regionId }

/-- What a listing is refreshed with may be stored. -/
def Contractor.takes (facts : SourceFacts) (c : Contractor) : Bool :=
  (c.isClaimed || isDisplayName facts.displayName) &&
    (decide (c.postalCode = facts.postalCode) || isWithin 10 facts.postalCode)

/-- **What creating or refreshing a listing does.** -/
inductive Contents.Lists (facts : SourceFacts) (C : Contents) :
    Except AppError UpsertResult → Contents → Prop
  /-- There is none, and nothing is in its way. -/
  | created {id : Uuid}
      (hnone : ∀ k c, C.contractors k = some c → c.licenseRecordId ≠ some facts.licenseRecordId)
      (hslug : ∀ k c, C.contractors k = some c → c.slug ≠ facts.slug)
      (hid : C.contractors id = none) (hchecks : facts.checks = true) :
      C.Lists facts (.ok ⟨id, true, facts.postalCode.isSome⟩) (C.setListing id facts.row)
  /-- There is one. -/
  | refreshed {id : Uuid} {c : Contractor} (hc : C.contractors id = some c)
      (hlicense : c.licenseRecordId = some facts.licenseRecordId) (htakes : c.takes facts = true) :
      C.Lists facts (.ok ⟨id, false, decide (c.postalCode ≠ facts.postalCode)⟩)
        (C.setListing id (c.refreshed facts))
  /-- There is none, and it may not be stored. -/
  | notCreated {e : AppError}
      (hnone : ∀ k c, C.contractors k = some c → c.licenseRecordId ≠ some facts.licenseRecordId)
      (hrefused : facts.checks = false ∨ ∃ k c, C.contractors k = some c ∧ c.slug = facts.slug) :
      C.Lists facts (.error e) C
  /-- There is one, and what is new may not be stored. -/
  | notRefreshed {id : Uuid} {c : Contractor} {C' : Contents} {e : AppError}
      (hc : C.contractors id = some c) (hlicense : c.licenseRecordId = some facts.licenseRecordId)
      (htakes : c.takes facts = false) : C.Lists facts (.error e) C'

theorem insertListing_yields (facts : SourceFacts)
    (hnone : ∀ k c, C.contractors k = some c → c.licenseRecordId ≠ some facts.licenseRecordId) :
    Yields atlas i (some P) C (do
      let inserted ← Action.query (.listing .tx (.insert facts))
      match inserted with
      | some id => pure ⟨id, true, facts.postalCode.isSome⟩
      | none => throw (.internal "a constraint is violated")) (C.Lists facts) := by
  refine Yields.query fun db hdb => ?_
  have hrefused : (facts.checks = false ∨ ∃ k c, C.contractors k = some c ∧ c.slug = facts.slug) →
      (ListingStatement.insert facts).run atlas .tx i db.contractors =
        some (none, db.contractors) := by
    intro h
    rw [ListingStatement.run]
    split
    · rename_i hchecks
      rcases h with h | ⟨k, c, hc, hslug⟩
      · rw [hchecks] at h
        cases h
      · refine hdb.admits.contractors.insertFresh_refused (show db.contractors.seen i k = some c from ?_) ?_
        · rw [hdb.contractors_eq]
          exact hc
        · simp [SourceFacts.clashes, hslug]
    · rfl
  by_cases hall : facts.checks = true ∧ ∀ k c, C.contractors k = some c → c.slug ≠ facts.slug
  · obtain ⟨hchecks, hslug⟩ := hall
    have hclash : ∀ k c, db.contractors.seen i k = some c → facts.clashes c = false := by
      intro k c hc
      rw [hdb.contractors_eq] at hc
      simp [SourceFacts.clashes, hnone k c hc, hslug k c hc]
    obtain ⟨id, t, ht, hid, hseen⟩ := hdb.admits.contractors.insertFresh_new facts.row hclash
    rw [hdb.contractors_eq] at hid hseen
    have hrun : (ListingStatement.insert facts).run atlas .tx i db.contractors =
        some (some id, t) := by
      rw [ListingStatement.run, if_pos hchecks]
      exact ht
    obtain ⟨db', hq, hdb'⟩ := hdb.listing hrun
    rw [hseen] at hdb'
    exact ⟨some id, db', _, hq, hdb', Yields.pure (.created hnone hslug hid hchecks)⟩
  · have hno : facts.checks = false ∨ ∃ k c, C.contractors k = some c ∧ c.slug = facts.slug := by
      by_cases hchecks : facts.checks = true
      · refine Or.inr ?_
        by_contra hnot
        exact hall ⟨hchecks, fun k c hc hslug => hnot ⟨k, c, hc, hslug⟩⟩
      · exact Or.inl (eq_false_of_ne_true hchecks)
    obtain ⟨db', hq, hdb'⟩ := hdb.listing (hrefused hno)
    rw [hdb.contractors_eq] at hdb'
    exact ⟨none, db', _, hq, hdb', Yields.throw (.notCreated hnone hno)⟩

/-- The name of a listing is its owner's, once there is one. -/
theorem refreshName_yields {α : Type} {id : Uuid} {c : Contractor} {facts : SourceFacts}
    {k : Unit → Registering α} {post : Except AppError α → Contents → Prop}
    (hrow : C.contractors id = some c)
    (h : (c.isClaimed || isDisplayName facts.displayName) = true →
      Yields atlas i (some P) (C.setListing id
        { c with displayName := if c.isClaimed then c.displayName else facts.displayName })
        (k ()) post)
    (hrefused : (c.isClaimed || isDisplayName facts.displayName) = false → ∀ e, post (.error e) C) :
    Yields atlas i (some P) C (refreshName id c.isClaimed facts.displayName >>= k) post := by
  rw [refreshName]
  cases hclaimed : c.isClaimed with
  | true =>
    rw [hclaimed] at h
    have h := h rfl
    have hsame : C.setListing id { c with displayName := c.displayName } = C := by
      have hupdate : Function.update C.contractors id (some c) = C.contractors := by
        rw [← hrow, Function.update_eq_self]
      rw [Contents.setListing, hupdate]
    rw [if_pos rfl, hsame] at h
    exact Yields.andThen (Yields.pure ⟨(), rfl, h⟩)
  | false =>
    rw [hclaimed, Bool.false_or] at h hrefused
    by_cases hname : isDisplayName facts.displayName = true
    · have h := h hname
      refine updateListing_yields (w := some P) hname ?_
      rw [Contents.change_of_row hrow]
      exact h
    · have hname := eq_false_of_ne_true hname
      exact updateListing_refused (w := some P) hname hrow (hrefused hname)

theorem upsertFromLicense_yields (facts : SourceFacts) :
    Yields atlas i (some P) C (upsertFromLicense facts) (C.Lists facts) := by
  refine Yields.look fun db hdb => ?_
  rcases listingOf_cases hdb.contractors_eq facts.licenseRecordId with
    ⟨hnone, hno⟩ | ⟨id, c, hsome, hc, hlicense⟩
  · rw [hnone]
    exact insertListing_yields facts hno
  · rw [hsome]
    refine refreshName_yields hc (fun hname => ?_) fun hname e => .notRefreshed hc hlicense ?_
    · show Yields atlas i (some P) _
        (if c.postalCode = facts.postalCode then _ else _ : Registering UpsertResult) _
      by_cases hcode : c.postalCode = facts.postalCode
      · rw [if_pos hcode]
        refine Yields.pure ?_
        have hlists := Contents.Lists.refreshed hc hlicense
          (show c.takes facts = true by rw [Contractor.takes, hname, decide_eq_true hcode]; rfl)
        rw [decide_eq_false (not_not.mpr hcode)] at hlists
        have hsame : c.refreshed facts =
            { c with displayName := if c.isClaimed then c.displayName else facts.displayName } := by
          rw [Contractor.refreshed, if_pos hcode, ← hcode]
        rw [hsame] at hlists
        exact hlists
      · rw [if_neg hcode]
        have hrow : (C.setListing id { c with
            displayName := if c.isClaimed then c.displayName else facts.displayName }).contractors
              id = some { c with
                displayName := if c.isClaimed then c.displayName else facts.displayName } :=
          Function.update_self _ _ _
        by_cases hwithin : (Change.postalCode facts.postalCode facts.regionId).checks = true
        · refine updateListing_yields (w := some P) hwithin (Yields.pure ?_)
          have hlists := Contents.Lists.refreshed hc hlicense (show c.takes facts = true by
            rw [Contractor.takes, hname, Bool.true_and, Bool.or_eq_true]
            exact Or.inr hwithin)
          rw [decide_eq_true hcode] at hlists
          have hsame : (C.setListing id { c with
              displayName := if c.isClaimed then c.displayName else facts.displayName }).change id
                (Change.postalCode facts.postalCode facts.regionId).apply =
                  C.setListing id (c.refreshed facts) := by
            rw [Contents.change_of_row hrow, Contractor.refreshed, if_neg hcode]
            simp only [Contents.setListing, Function.update_idem]
            rfl
          rw [hsame]
          exact hlists
        · have hwithin := eq_false_of_ne_true hwithin
          refine updateListing_refused (w := some P) hwithin hrow
            fun e => Contents.Lists.notRefreshed hc hlicense ?_
          have hcode' : isWithin 10 facts.postalCode = false := hwithin
          rw [Contractor.takes, hcode', decide_eq_false hcode, Bool.or_false, Bool.and_false]
    · rw [Contractor.takes, hname, Bool.false_and]

/-! ### Trades -/

/-- The contents, while the trades of the register of a listing are deleted. -/
structure Contents.Dropping (C : Contents) (id : Uuid) (rest : List TradeKey) (C' : Contents) :
    Prop where
  others : C' = { C with trades := C'.trades }
  kept : ∀ key, ¬ (key.contractorId = id ∧ key.source = .cslb) → C'.trades key = C.trades key
  dropped : ∀ key, key.contractorId = id ∧ key.source = .cslb → key ∉ rest → C'.trades key = none
  rest : ∀ key ∈ rest, key.contractorId = id ∧ key.source = .cslb

theorem Contents.Dropping.end {id : Uuid} {C' : Contents} (h : C.Dropping id [] C') :
    C' = C.setTrades id [] := by
  rw [h.others, Contents.setTrades]
  congr 1
  funext key
  split
  · rename_i hkey
    rw [if_neg List.not_mem_nil]
    exact h.dropped key hkey List.not_mem_nil
  · rename_i hkey
    exact h.kept key hkey

theorem Contents.setTrades_concat (C : Contents) (id tradeId : Uuid) (tradeIds : List Uuid) :
    { C.setTrades id tradeIds with
      trades := Function.update (C.setTrades id tradeIds).trades ⟨id, tradeId, .cslb⟩ (some ()) } =
        C.setTrades id (tradeIds ++ [tradeId]) := by
  have htrades : Function.update (C.setTrades id tradeIds).trades ⟨id, tradeId, .cslb⟩ (some ()) =
      (C.setTrades id (tradeIds ++ [tradeId])).trades := by
    funext key
    simp only [setTrades]
    rcases eq_or_ne key ⟨id, tradeId, .cslb⟩ with rfl | hne
    · rw [Function.update_self, if_pos ⟨rfl, rfl⟩, if_pos (by simp)]
    · rw [Function.update_of_ne hne]
      by_cases hkey : key.contractorId = id ∧ key.source = .cslb
      · have htrade : key.tradeId ≠ tradeId := by
          intro heq
          obtain ⟨contractorId, trade, source⟩ := key
          obtain ⟨hid, hsource⟩ := hkey
          cases hid
          cases hsource
          cases heq
          exact hne rfl
        rw [if_pos hkey, if_pos hkey]
        simp only [List.mem_append, List.mem_singleton, htrade, or_false]
      · rw [if_neg hkey, if_neg hkey]
  rw [htrades]
  rfl

theorem Contents.setTrades_setTrades (C : Contents) (id : Uuid) (old new : List Uuid) :
    (C.setTrades id old).setTrades id new = C.setTrades id new := by
  rw [Contents.setTrades, Contents.setTrades, Contents.setTrades]
  congr 1
  funext key
  by_cases hkey : key.contractorId = id ∧ key.source = .cslb
  · rw [if_pos hkey, if_pos hkey]
  · rw [if_neg hkey, if_neg hkey]
    exact if_neg hkey

theorem replaceCslbTrades_yields {α : Type} {id : Uuid} {tradeIds : List Uuid}
    {k : Unit → Registering α} {post : Except AppError α → Contents → Prop}
    (h : Yields atlas i (some P) (C.setTrades id tradeIds) (k ()) post) :
    Yields atlas i (some P) C (replaceCslbTrades id tradeIds >>= k) post := by
  refine Yields.andThen (Yields.look fun db hdb => ?_)
  have hmem : ∀ key, key ∈ cslbTrades id i db ↔
      C.trades key = some () ∧ key.contractorId = id ∧ key.source = .cslb := by
    intro key
    have hrow : db.trades.row i key = C.trades key := congrFun hdb.trades_eq key
    rw [cslbTrades, Table.mem_scan, hrow]
    constructor
    · rintro ⟨u, hu, hkey⟩
      exact ⟨hu, by simpa using hkey⟩
    · rintro ⟨hu, hkey⟩
      exact ⟨(), hu, by simpa using hkey⟩
  refine Yields.countEach (C.Dropping id) ⟨rfl, fun _ _ => rfl, fun key hkey hold => ?_,
    fun key hkey => ((hmem key).mp hkey).2⟩ (fun key rest C' db hI hdb => ?_) fun n C' hI => ?_
  · cases htrade : C.trades key with
    | none => rfl
    | some u => exact absurd ((hmem key).mpr ⟨htrade, hkey⟩) hold
  · obtain ⟨db', hq, hdb'⟩ := hdb.dropTrade key
    refine ⟨_, db', _, hq, hdb', ?_, fun l hl => ?_, fun l hl hrest => ?_,
      fun l hl => hI.rest l (List.mem_cons_of_mem _ hl)⟩
    · rw [hI.others]
    · have hne : l ≠ key := by
        rintro rfl
        exact hl (hI.rest l List.mem_cons_self)
      exact (Function.update_of_ne hne _ _).trans (hI.kept l hl)
    · rcases eq_or_ne l key with rfl | hne
      · exact Function.update_self _ _ _
      · refine (Function.update_of_ne hne _ _).trans (hI.dropped l hl fun hmem => ?_)
        rcases List.mem_cons.mp hmem with heq | hmem
        · exact hne heq
        · exact hrest hmem
  obtain rfl := hI.end
  -- the old ones are gone; the new ones are written one by one
  refine Yields.countEach (fun rest C' => ∃ done todo, rest = todo.map (fun t => ⟨id, t, .cslb⟩) ∧
    done ++ todo = tradeIds ∧ C' = C.setTrades id done) ⟨[], tradeIds, rfl, rfl, rfl⟩ ?_ ?_
  · rintro key rest C' db ⟨done, todo, hrest, hall, rfl⟩ hdb
    cases todo with
    | nil => cases hrest
    | cons t todo =>
      cases hrest
      obtain ⟨db', hq, hdb'⟩ := hdb.addTrade ⟨id, t, .cslb⟩
      rw [Contents.setTrades_concat] at hdb'
      exact ⟨_, db', _, hq, hdb', done ++ [t], todo, rfl, by simpa using hall, rfl⟩
  · rintro n C' ⟨done, todo, hrest, hall, rfl⟩
    obtain rfl : todo = [] := List.map_eq_nil_iff.mp hrest.symm
    rw [List.append_nil] at hall
    subst hall
    exact Yields.pure ⟨(), rfl, h⟩

/-! ### Where a listing appears -/

theorem republish_yields {α : Type} {id : Uuid} {k : Directory.PublicPointSource → Registering α}
    {post : Except AppError α → Contents → Prop}
    (h : ∀ source, Yields atlas i (some P) (C.change id (Contractor.republished atlas id))
      (k source) post) : Yields atlas i (some P) C (republish atlas id >>= k) post := by
  refine Yields.andThen (Yields.look fun db hdb => ?_)
  have hrow : db.contractors.row i id = C.contractors id := congrFun hdb.contractors_eq id
  rw [hrow]
  cases hc : C.contractors id with
  | none =>
    rw [Contents.change, hc] at h
    exact Yields.pure ⟨.none, rfl, h .none⟩
  | some c =>
    refine @updateListing_yields atlas i C (some P) _ id (.location _ _) _ _ rfl
      (Yields.pure ⟨_, rfl, ?_⟩)
    have h := h (published atlas (c.locationInputs id)).publicPointSource
    rw [Contents.change_of_row hc] at h ⊢
    exact h

/-- **What queueing a listing whose address is new does.** -/
inductive Contents.Relocates (atlas : Atlas) (id : Uuid) (C : Contents) : Contents → Prop
  /-- It has no address. -/
  | unaddressed (haddress : C.addressFor id = none) : C.Relocates atlas id C
  /-- There is an open job for it. -/
  | waiting {k : Uuid} {job : GeocodeJob} (hjob : C.queue k = some job) (hopen : job.isOpen = true)
      (hid : job.contractorId = id) : C.Relocates atlas id C
  /-- There is none, and it is queued. -/
  | queued {address : Text} {k : Uuid} {now : Instant} (haddress : C.addressFor id = some address)
      (hk : C.queue k = none)
      (hnone : ∀ l job, C.queue l = some job → job.isOpen = true → job.contractorId ≠ id) :
      C.Relocates atlas id (C.setJob k (.new id (atlas.addressHash address) now))

theorem addressFor_eq {w : Option Contents} {db : Db} (h : db.In i w C) (id : Uuid) :
    db.addressFor i id = C.addressFor id := by
  have hrow : db.contractors.row i id = C.contractors id := congrFun h.contractors_eq id
  have hlicense : ∀ c, db.licenseOf i c = C.licenseOf c := by
    intro c
    rw [Db.licenseOf, Contents.licenseOf]
    cases c.licenseRecordId with
    | none => rfl
    | some l => exact congrFun h.licenses_eq l
  rw [Db.addressFor, Contents.addressFor, hrow]
  simp only [hlicense]

theorem relocateAfterAddressChange_yields (id : Uuid) :
    Yields atlas i (some P) C (relocateAfterAddressChange atlas id)
      (fun r C' => r = .ok () ∧ C.Relocates atlas id C') := by
  refine Yields.look fun db hdb => ?_
  rw [addressFor_eq hdb]
  cases haddress : C.addressFor id with
  | none => exact Yields.pure ⟨rfl, .unaddressed haddress⟩
  | some address =>
    refine Yields.andThen (Yields.clock fun now => Yields.query fun db hdb => ?_)
    have hqueue : db.queue.seen i = C.queue := hdb.queue_eq
    by_cases hopen : ∃ l job, C.queue l = some job ∧ job.isOpen = true ∧ job.contractorId = id
    · obtain ⟨l, job, hjob, hopen, hid⟩ := hopen
      have ht : (JobStatement.enqueue id (atlas.addressHash address) now).run .tx i db.queue =
          some (none, db.queue) := by
        refine hdb.admits.queue.insertFresh_refused
          (show db.queue.seen i l = some job by rw [hqueue, hjob]) ?_
        rw [GeocodeJob.clashes, hopen, hid]
        simp [GeocodeJob.isOpen, GeocodeJob.new]
      obtain ⟨db', hq, hdb'⟩ := hdb.job ht
      rw [hqueue] at hdb'
      exact ⟨none, db', _, hq, hdb',
        Yields.pure ⟨false, rfl, Yields.pure ⟨rfl, .waiting hjob hopen hid⟩⟩⟩
    · have hnone : ∀ l job, C.queue l = some job → job.isOpen = true → job.contractorId ≠ id :=
        fun l job hjob hopen' hid => hopen ⟨l, job, hjob, hopen', hid⟩
      have hclash : ∀ l job, db.queue.seen i l = some job →
          (GeocodeJob.new id (atlas.addressHash address) now).clashes job = false := by
        intro l job hjob
        rw [hqueue] at hjob
        cases hisOpen : job.isOpen with
        | false => rw [GeocodeJob.clashes, hisOpen, Bool.and_false, Bool.false_and]
        | true =>
          have hne : id ≠ job.contractorId := (hnone l job hjob hisOpen).symm
          rw [GeocodeJob.clashes, GeocodeJob.new, decide_eq_false hne, Bool.and_false]
      obtain ⟨l, t, ht, hl, hseen⟩ := hdb.admits.queue.insertFresh_new
        (GeocodeJob.new id (atlas.addressHash address) now) hclash
      rw [hqueue] at hl hseen
      obtain ⟨db', hq, hdb'⟩ := hdb.job (q := .enqueue id (atlas.addressHash address) now) ht
      rw [hseen] at hdb'
      exact ⟨some l, db', _, hq, hdb', Yields.pure ⟨true, rfl,
        Yields.pure ⟨rfl, .queued haddress hl hnone⟩⟩⟩

/-- **What publishing a point for a listing does.** -/
inductive Contents.Places (atlas : Atlas) (u : UpsertResult) (C : Contents) : Contents → Prop
  /-- It appears where it did. -/
  | still (h : (u.created || u.locationChanged) = false) : C.Places atlas u C
  /-- It has moved. -/
  | moved {C' : Contents} (h : (u.created || u.locationChanged) = true)
      (hrelocates : (C.change u.id (Contractor.republished atlas u.id)).Relocates atlas u.id C') :
      C.Places atlas u C'

theorem place_yields {α : Type} {u : UpsertResult} {k : Unit → Registering α}
    {post : Except AppError α → Contents → Prop}
    (h : ∀ C', C.Places atlas u C' → Yields atlas i (some P) C' (k ()) post) :
    Yields atlas i (some P) C (place atlas u >>= k) post := by
  rw [place]
  split
  · rename_i hmoved
    refine Yields.andThen (republish_yields fun source =>
      (relocateAfterAddressChange_yields u.id).mono ?_)
    rintro r C' ⟨rfl, hC'⟩
    exact ⟨(), rfl, h C' (.moved hmoved hC')⟩
  · rename_i hstill
    exact Yields.andThen (Yields.pure ⟨(), rfl, h C (.still (eq_false_of_ne_true hstill))⟩)

theorem recompute_yields {α : Type} {id : Uuid} {k : Outcome → Registering α}
    {post : Except AppError α → Contents → Prop}
    (h : ∀ outcome now, Yields atlas i (some P) (C.recheck atlas id now) (k outcome) post) :
    Yields atlas i (some P) C (recompute atlas id >>= k) post := by
  refine Yields.andThen (Yields.look fun db hdb => Yields.look fun db' hdb' =>
    Yields.clock fun now => ?_)
  have hrow : db.contractors.row i id = C.contractors id := congrFun hdb.contractors_eq id
  have hfacts : (db'.contractors.row i id).bind (db'.licenseOf i) =
      (C.contractors id).bind C.licenseOf := by
    rw [show db'.contractors.row i id = C.contractors id from congrFun hdb'.contractors_eq id]
    congr 1
    funext c
    rw [Db.licenseOf, Contents.licenseOf]
    congr 1
    exact hdb'.licenses_eq
  rw [hrow, hfacts]
  refine @updateListing_yields atlas i C (some P) _ id (.verification _ _ _) _ _ rfl
    (Yields.pure ⟨_, rfl, ?_⟩)
  have h := fun outcome => h outcome now
  rw [Contents.recheck] at h
  cases hc : C.contractors id with
  | none =>
    rw [Contents.change, hc] at h ⊢
    exact h _
  | some c =>
    rw [Contents.change_of_row hc] at h ⊢
    exact h _

end

end Marketplace.Registry
