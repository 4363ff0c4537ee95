import Marketplace.Registry.Reimports

/-!
# Rows that cannot be stored

A row that could not be read, or that something mandatory is missing from, is counted and passed
over. A row that the schema refuses is not: the batch that it is in is rolled back, and the run ends
there. A run therefore passes over the bad rows, and over these alone, exactly if each licence can be
stored when its turn comes (`Marketplace.Registry.survives_iff`): its content is known, or it meets
the conditions on its columns, and its listing can be created or refreshed
(`Marketplace.Registry.Contents.CanStore`).
-/

namespace Marketplace.Registry

open ReadCommitted

variable {atlas : Atlas} {C C' C'' : Contents} {record : LicenseRecord} {runId id : Uuid}

/-! ### What the schema takes -/

/-- The licence that a listing is of. -/
def Contents.licenseIdOf (C : Contents) (k : Uuid) : Option Uuid :=
  (C.contractors k).bind Contractor.licenseRecordId

/-- **Contents that the keys of the schema allow.** -/
structure Contents.Lawful (C : Contents) : Prop where
  /-- `license_records_license_no_key`. -/
  numbered : C.Numbered
  /-- `contractors_license_key`. -/
  listed : ∀ k k' id, C.licenseIdOf k = some id → C.licenseIdOf k' = some id → k = k'
  /-- The licence that a listing is of is there. -/
  referenced : ∀ k id, C.licenseIdOf k = some id → C.licenses id ≠ none

/-- **The listing can be created**, or refreshed. -/
def Contents.CanList (facts : SourceFacts) (C : Contents) : Prop :=
  (∃ k c, C.contractors k = some c ∧ c.licenseRecordId = some facts.licenseRecordId ∧
    c.takes facts = true) ∨
  (∀ k c, C.contractors k = some c →
    c.licenseRecordId ≠ some facts.licenseRecordId ∧ c.slug ≠ facts.slug) ∧ facts.checks = true

/-- **The licence can be stored**, under an identifier. -/
def Contents.CanStore (atlas : Atlas) (id : Uuid) (record : LicenseRecord) (C : Contents) : Prop :=
  C.Holds record ∨ record.checks = true ∧ C.CanList (sourceFacts atlas id record)

theorem Contents.Lists.canList_iff (hC : C.Lawful) {facts : SourceFacts}
    {r : Except AppError UpsertResult} (h : C.Lists facts r C') :
    C.CanList facts ↔ ∃ u, r = .ok u := by
  cases h with
  | created hnone hslug hid hchecks =>
    exact iff_of_true (.inr ⟨fun k c hc => ⟨hnone k c hc, hslug k c hc⟩, hchecks⟩) ⟨_, rfl⟩
  | refreshed hc hlicense htakes => exact iff_of_true (.inl ⟨_, _, hc, hlicense, htakes⟩) ⟨_, rfl⟩
  | notCreated hnone hrefused =>
    refine iff_of_false ?_ fun ⟨_, hu⟩ => nomatch hu
    rintro (⟨k, c, hc, hlicense, -⟩ | ⟨hfree, hchecks⟩)
    · exact hnone k c hc hlicense
    · rcases hrefused with hrefused | ⟨k, c, hc, hslug⟩
      · exact Bool.noConfusion (hchecks.symm.trans hrefused)
      · exact (hfree k c hc).2 hslug
  | @notRefreshed k c _ _ hc hlicense htakes =>
    refine iff_of_false ?_ fun ⟨_, hu⟩ => nomatch hu
    rintro (⟨k', c', hc', hlicense', htakes'⟩ | ⟨hfree, -⟩)
    · obtain rfl := hC.listed k k' facts.licenseRecordId
        (by rw [licenseIdOf, hc, Option.bind_some, hlicense])
        (by rw [licenseIdOf, hc', Option.bind_some, hlicense'])
      cases hc.symm.trans hc'
      exact Bool.noConfusion (htakes.symm.trans htakes')
    · exact (hfree k c hc).1 hlicense

/-- The record of a licence with its number is what is merged into it. -/
theorem License.merge_eq {l : License} (hno : l.licenseNo = record.licenseNo) :
    l.merge record = record := by
  rw [License.merge, hno]

/-- **Storing a licence**: its content is known, or it meets the conditions on its columns. -/
theorem Contents.Upserts.checks {r : Except AppError StoredLicense} (hC : C.Numbered)
    (h : C.Upserts runId record r C') :
    (∃ id, r = .ok ⟨id, .unchanged⟩ ∧ C.Holds record) ∨ ¬ C.Holds record ∧
      ((∃ stored, r = .ok stored ∧ stored.outcome ≠ .unchanged) ↔ record.checks = true) := by
  have hother : ∀ {id l}, C.licenses id = some l → l.licenseNo = record.licenseNo →
      l.contentHash ≠ record.contentHash → ¬ C.Holds record := by
    rintro id l hl hno hhash ⟨id', l', hl', hno', hhash'⟩
    obtain rfl := hC id id' l l' hl hl' (hno.trans hno'.symm)
    cases hl.symm.trans hl'
    exact hhash hhash'
  cases h with
  | @unchanged id l now hl hno hhash => exact .inl ⟨id, rfl, id, l, hl, hno, hhash⟩
  | @updated id l l' now hl hno hhash hl' =>
    refine .inr ⟨hother hl hno hhash, iff_of_true ⟨_, rfl, nofun⟩ ?_⟩
    have hchecked := l'.checked
    rwa [(License.update_eq hl').1, License.merge_eq hno] at hchecked
  | inserted hno hid hchecks =>
    refine .inr ⟨?_, iff_of_true ⟨_, rfl, nofun⟩ hchecks⟩
    rintro ⟨k, l, hl, hl_no, -⟩
    exact hno k l hl hl_no
  | @notUpdated id l now e hl hno hhash hl' =>
    refine .inr ⟨hother hl hno hhash, iff_of_false (fun ⟨_, hr, _⟩ => nomatch hr) fun hchecks => ?_⟩
    rw [License.update, License.merge_eq hno, dif_pos hchecks] at hl'
    cases hl'
  | notInserted hno hchecks =>
    refine .inr ⟨?_, iff_of_false (fun ⟨_, hr, _⟩ => nomatch hr) (ne_true_of_eq_false hchecks)⟩
    rintro ⟨k, l, hl, hl_no, -⟩
    exact hno k l hl hl_no

/-- A licence that is stored has its number, and nothing else is written. -/
theorem Contents.Upserts.licenses_eq {stored : StoredLicense}
    (h : C.Upserts runId record (.ok stored) C') :
    (∃ l, C'.licenses = Function.update C.licenses stored.id (some l) ∧
      l.licenseNo = record.licenseNo) ∧ C'.contractors = C.contractors := by
  cases h with
  | @unchanged id l now hl hno hhash => exact ⟨⟨_, rfl, hno⟩, rfl⟩
  | @updated id l l' now hl hno hhash hl' =>
    exact ⟨⟨l', rfl, by rw [(License.update_eq hl').1]; exact hno⟩, rfl⟩
  | inserted => exact ⟨⟨_, rfl, rfl⟩, rfl⟩

/-! ### What an import keeps -/

theorem Contents.Lawful.of_same (hC : C.Lawful) (hlicenses : C'.licenses = C.licenses)
    (hids : C'.licenseIdOf = C.licenseIdOf) : C'.Lawful where
  numbered := by
    rw [Contents.Numbered, hlicenses]
    exact hC.numbered
  listed := by
    rw [hids]
    exact hC.listed
  referenced := by
    rw [hids, hlicenses]
    exact hC.referenced

theorem Contents.licenseIdOf_change {f : Contractor → Contractor}
    (hf : ∀ c, (f c).licenseRecordId = c.licenseRecordId) :
    (C.change id f).licenseIdOf = C.licenseIdOf := by
  funext k
  rw [licenseIdOf, licenseIdOf, change_contractors]
  split
  · rename_i hk
    rw [hk]
    cases C.contractors id with
    | none => rfl
    | some c => exact hf c
  · rfl

theorem Contents.Upserts.lawful {stored : StoredLicense} (hC : C.Lawful)
    (h : C.Upserts runId record (.ok stored) C') : C'.Lawful := by
  obtain ⟨⟨l, hlicenses, -⟩, hcontractors⟩ := h.licenses_eq
  have hids : C'.licenseIdOf = C.licenseIdOf := by
    funext k
    rw [Contents.licenseIdOf, Contents.licenseIdOf, hcontractors]
  refine ⟨h.stores.numbered hC.numbered, ?_, fun k id hk => ?_⟩
  · rw [hids]
    exact hC.listed
  · rw [hids] at hk
    rw [hlicenses, Function.update_apply]
    split
    · exact Option.some_ne_none l
    · exact hC.referenced k id hk

theorem Contents.Lists.lawful {facts : SourceFacts} {u : UpsertResult} (hC : C.Lawful)
    (h : C.Lists facts (.ok u) C') (hstored : C.licenses facts.licenseRecordId ≠ none) :
    C'.Lawful := by
  cases h with
  | @created id hnone hslug hid hchecks =>
    have hids : ∀ k, (C.setListing id facts.row).licenseIdOf k =
        if k = id then some facts.licenseRecordId else C.licenseIdOf k := by
      intro k
      have hrow : (C.setListing id facts.row).contractors k =
          if k = id then some facts.row else C.contractors k := Function.update_apply _ _ _ _
      rw [Contents.licenseIdOf, hrow]
      split <;> rfl
    have hother : ∀ k, C.licenseIdOf k ≠ some facts.licenseRecordId := by
      intro k hk
      obtain ⟨c, hc, hlicense⟩ := Option.bind_eq_some_iff.mp hk
      exact hnone k c hc hlicense
    refine ⟨hC.numbered, fun k k' id' hk hk' => ?_, fun k id' hk => ?_⟩
    · rw [hids] at hk hk'
      split at hk <;> split at hk'
      · rename_i heq heq'
        rw [heq, heq']
      · exact absurd (hk'.trans hk.symm) (hother k')
      · exact absurd (hk.trans hk'.symm) (hother k)
      · exact hC.listed k k' id' hk hk'
    · rw [hids] at hk
      split at hk
      · cases hk
        exact hstored
      · exact hC.referenced k id' hk
  | @refreshed id c hc hlicense htakes =>
    refine hC.of_same rfl (funext fun k => ?_)
    have hrow : (C.setListing id (c.refreshed facts)).contractors k =
        if k = id then some (c.refreshed facts) else C.contractors k := Function.update_apply _ _ _ _
    rw [Contents.licenseIdOf, Contents.licenseIdOf, hrow]
    split
    · rename_i hk
      rw [hk, hc]
      rfl
    · rfl

theorem Contents.Places.licenseIdOf_eq {u : UpsertResult} (h : C.Places atlas u C') :
    C'.licenseIdOf = C.licenseIdOf := by
  cases h with
  | still => rfl
  | moved _ hrelocates =>
    have hchange : (C.change u.id (Contractor.republished atlas u.id)).licenseIdOf =
        C.licenseIdOf := Contents.licenseIdOf_change fun _ => rfl
    cases hrelocates with
    | unaddressed | waiting => exact hchange
    | queued => exact hchange

/-- **Importing a licence keeps what the keys allow.** -/
theorem Contents.Imports.lawful {o : UpsertOutcome} (hC : C.Lawful)
    (h : C.Imports atlas runId record (.ok o) C') : C'.Lawful := by
  cases h with
  | unchanged hstored => exact hstored.lawful hC
  | @projected stored u C₁ C₂ C₃ now hstored hnew hlisted hplaced =>
    obtain ⟨⟨l, hlicenses, -⟩, -⟩ := hstored.licenses_eq
    have hC₂ := hlisted.lawful (hstored.lawful hC) (by
      show C₁.licenses stored.id ≠ none
      rw [hlicenses, Function.update_self]
      exact Option.some_ne_none l)
    have hC₃ : C₃.Lawful :=
      Contents.Lawful.of_same (C := C₂) hC₂ hplaced.sameRegister.licenses hplaced.licenseIdOf_eq
    exact hC₃.of_same Contents.change_licenses (Contents.licenseIdOf_change fun _ => rfl)

/-! ### Whose turn it is -/

/-- The identifier of a licence, if it is there. -/
def Contents.IdFor (C : Contents) (record : LicenseRecord) (id : Uuid) : Prop :=
  ∀ k l, C.licenses k = some l → l.licenseNo = record.licenseNo → k = id

/-- **A licence that is imported could be stored**, under the identifier that it then has. -/
theorem Contents.Imports.canStore {o : UpsertOutcome} (hC : C.Lawful)
    (h : C.Imports atlas runId record (.ok o) C') :
    ∃ id l, C'.licenses id = some l ∧ l.licenseNo = record.licenseNo ∧ C.CanStore atlas id record := by
  cases h with
  | @unchanged stored _ hstored hsame =>
    obtain ⟨⟨l, hlicenses, hno⟩, -⟩ := hstored.licenses_eq
    have himports : C.Imports atlas runId record (.ok .unchanged) C' := .unchanged hstored hsame
    exact ⟨stored.id, l, by rw [hlicenses, Function.update_self], hno,
      .inl himports.sameButSeen.1⟩
  | @projected stored u C₁ C₂ C₃ now hstored hnew hlisted hplaced =>
    obtain ⟨⟨l, hlicenses, hno⟩, hcontractors⟩ := hstored.licenses_eq
    have hlast : (C₃.recheck atlas u.id now).licenses = C₁.licenses := by
      rw [Contents.recheck, Contents.change_licenses, hplaced.sameRegister.licenses]
      exact hlisted.sameRegister.licenses
    refine ⟨stored.id, l, by rw [hlast, hlicenses, Function.update_self], hno, ?_⟩
    rcases hstored.checks hC.numbered with ⟨id, hid, -⟩ | ⟨-, hiff⟩
    · cases hid
      exact absurd rfl hnew
    · have hcan := (hlisted.canList_iff (hstored.lawful hC)).mpr ⟨u, rfl⟩
      rw [Contents.CanList, hcontractors] at hcan
      exact .inr ⟨hiff.mp ⟨stored, rfl, hnew⟩, hcan⟩

/-- **A licence that is refused could not be stored.** -/
theorem Contents.Imports.not_canStore {e : AppError} (hC : C.Lawful)
    (h : C.Imports atlas runId record (.error e) C') :
    ∃ id, C.IdFor record id ∧ ¬ C.CanStore atlas id record := by
  cases h with
  | notStored hstored =>
    rcases hstored.checks hC.numbered with ⟨id, hid, -⟩ | ⟨hheld, hiff⟩
    · cases hid
    · have hchecks : ¬ record.checks = true := fun hchecks => by
        obtain ⟨stored, hr, -⟩ := hiff.mpr hchecks
        cases hr
      have hnot : ∀ id, ¬ C.CanStore atlas id record := by
        rintro id (hheld' | ⟨hchecks', -⟩)
        · exact hheld hheld'
        · exact hchecks hchecks'
      by_cases hthere : ∃ id l, C.licenses id = some l ∧ l.licenseNo = record.licenseNo
      · obtain ⟨id, l, hl, hno⟩ := hthere
        exact ⟨id, fun k l' hl' hno' => hC.numbered k id l' l hl' hl (hno'.trans hno.symm), hnot id⟩
      · exact ⟨0, fun k l hl hno => absurd ⟨k, l, hl, hno⟩ hthere, hnot 0⟩
  | @notListed stored e C₁ C₂ hstored hnew hlisted =>
    obtain ⟨⟨l, hlicenses, hno⟩, hcontractors⟩ := hstored.licenses_eq
    have hC₁ := hstored.lawful hC
    refine ⟨stored.id, fun k l' hl' hno' => ?_, ?_⟩
    · by_contra hne
      have hk : C₁.licenses k = some l' := by rw [hlicenses, Function.update_of_ne hne, hl']
      have hid : C₁.licenses stored.id = some l := by rw [hlicenses, Function.update_self]
      exact hne (hC₁.numbered k stored.id l' l hk hid (hno'.trans hno.symm))
    · rintro (hheld | ⟨-, hcan⟩)
      · rcases hstored.checks hC.numbered with ⟨id, hid, -⟩ | ⟨hnot, -⟩
        · cases hid
          exact hnew rfl
        · exact hnot hheld
      · have hcan₁ : C₁.CanList (sourceFacts atlas stored.id record) := by
          rw [Contents.CanList, hcontractors]
          exact hcan
        obtain ⟨u, hu⟩ := (hlisted.canList_iff hC₁).mp hcan₁
        cases hu

/-- **The turn of a licence**, with what is stored when it comes. -/
structure Turn where
  /-- The identifier that the licence has, or is given. -/
  id : Uuid
  record : LicenseRecord
  found : Contents

/-- The licence of a turn can be stored. -/
def Turn.Fits (atlas : Atlas) (turn : Turn) : Prop := turn.found.CanStore atlas turn.id turn.record

/-- **The turns of a run**, up to the first licence that is refused. -/
inductive Contents.Turns (atlas : Atlas) (runId : Uuid) :
    List LicenseRecord → List Turn → Contents → Prop
  | nil (C : Contents) : Turns atlas runId [] [] C
  /-- The licence is imported, and the next one finds it there. -/
  | imported {id : Uuid} {l : License} {record : LicenseRecord} {records : List LicenseRecord}
      {turns : List Turn} {o : UpsertOutcome} {C C' : Contents}
      (h : C.Imports atlas runId record (.ok o) C') (hl : C'.licenses id = some l)
      (hno : l.licenseNo = record.licenseNo) (hrest : Turns atlas runId records turns C') :
      Turns atlas runId (record :: records) (⟨id, record, C⟩ :: turns) C
  /-- The licence is refused. -/
  | refused {id : Uuid} {record : LicenseRecord} {records : List LicenseRecord} {e : AppError}
      {C C' : Contents} (h : C.Imports atlas runId record (.error e) C') (hid : C.IdFor record id) :
      Turns atlas runId (record :: records) [⟨id, record, C⟩] C

variable {records : List LicenseRecord} {os : List UpsertOutcome}

/-- The licences that are imported, before some others. -/
theorem Contents.ImportsAll.turns (hC : C.Lawful)
    (h : Contents.ImportsAll atlas runId records os C C') {after : List LicenseRecord}
    {more : List Turn} (hmore : Contents.Turns atlas runId after more C') :
    ∃ turns, Contents.Turns atlas runId (records ++ after) (turns ++ more) C ∧
      ∀ turn ∈ turns, turn.Fits atlas := by
  induction h with
  | nil => exact ⟨[], hmore, fun turn hturn => absurd hturn List.not_mem_nil⟩
  | cons hrecord _ ih =>
    obtain ⟨turns, hturns, hfits⟩ := ih (hrecord.lawful hC) hmore
    obtain ⟨id, l, hl, hno, hcan⟩ := hrecord.canStore hC
    refine ⟨_ :: turns, .imported hrecord hl hno hturns, fun turn hturn => ?_⟩
    rcases List.mem_cons.mp hturn with rfl | hturn
    · exact hcan
    · exact hfits turn hturn

theorem Contents.ImportsAll.lawful (hC : C.Lawful)
    (h : Contents.ImportsAll atlas runId records os C C') : C'.Lawful := by
  induction h with
  | nil => exact hC
  | cons hrecord _ ih => exact ih (hrecord.lawful hC)

theorem Contents.Refuses.turns (hC : C.Lawful) (h : C.Refuses atlas runId records) :
    ∃ turns, Contents.Turns atlas runId records turns C ∧ ∃ turn ∈ turns, ¬ turn.Fits atlas := by
  obtain ⟨before, record, after, os, C₁, e, C₂, rfl, hbefore, hrecord⟩ := h
  obtain ⟨id, hid, hnot⟩ := hrecord.not_canStore (hbefore.lawful hC)
  have hlast : Contents.Turns atlas runId (record :: after) [⟨id, record, C₁⟩] C₁ :=
    .refused hrecord hid
  obtain ⟨turns, hturns, -⟩ := hbefore.turns hC hlast
  exact ⟨_, hturns, _, List.mem_append_right _ List.mem_cons_self, hnot⟩

/-! ### Passing over the bad rows -/

/-- **Importing the rows that can be stored**, one by one, and no others. -/
inductive Contents.Sifts (atlas : Atlas) (runId : Uuid) (columns : ColumnMap)
    (county : Option Text) :
    List (Option (List Text)) → List (Option (List Text)) → Contents → Contents → Prop
  | nil (C : Contents) : Sifts atlas runId columns county [] [] C C
  /-- A row of another county is not asked for. -/
  | elsewhere {cells : List Text} {rows kept : List (Option (List Text))} {C C' : Contents}
      (h : isElsewhere columns county cells = true)
      (hrest : Sifts atlas runId columns county rows kept C C') :
      Sifts atlas runId columns county (some cells :: rows) (some cells :: kept) C C'
  /-- The row is a licence that can be stored. -/
  | stored {row : Option (List Text)} {rows kept : List (Option (List Text))}
      {record : LicenseRecord} {o : UpsertOutcome} {C C' C'' : Contents}
      (h : importable atlas columns county row = some record)
      (himport : C.Imports atlas runId record (.ok o) C')
      (hrest : Sifts atlas runId columns county rows kept C' C'') :
      Sifts atlas runId columns county (row :: rows) (row :: kept) C C''
  /-- The row is none, or one that cannot. -/
  | bad {row : Option (List Text)} {rows kept : List (Option (List Text))} {C C' : Contents}
      (hhere : ∀ cells, row = some cells → isElsewhere columns county cells = false)
      (h : ∀ record, importable atlas columns county row = some record →
        ∀ o C₁, ¬ C.Imports atlas runId record (.ok o) C₁)
      (hrest : Sifts atlas runId columns county rows kept C C') :
      Sifts atlas runId columns county (row :: rows) kept C C'

variable {columns : ColumnMap} {county : Option Text} {rows kept : List (Option (List Text))}

/-- **What is kept is stored as it would be without the other rows.** -/
theorem Contents.Sifts.absent (h : Contents.Sifts atlas runId columns county rows kept C C') :
    Contents.Sifts atlas runId columns county kept kept C C' := by
  induction h with
  | nil C => exact .nil C
  | elsewhere h _ ih => exact .elsewhere h ih
  | stored h himport _ ih => exact .stored h himport ih
  | bad _ _ _ ih => exact ih

/-- A licence is not rejected, nor is a row of another county. -/
theorem not_isRejected {row : Option (List Text)}
    (h : (importable atlas columns county row).isSome = true ∨
      ∃ cells, row = some cells ∧ isElsewhere columns county cells = true) :
    ¬ isRejected atlas columns county row = true := by
  rcases h with h | ⟨cells, rfl, hcells⟩
  · obtain ⟨record, hrecord⟩ := Option.isSome_iff_exists.mp h
    obtain ⟨cells, rfl, hcells⟩ := Option.bind_eq_some_iff.mp hrecord
    split at hcells
    · cases hcells
    · rw [isRejected, Option.all_some, hcells]
      simp
  · rw [isRejected, Option.all_some, hcells]
    exact Bool.false_ne_true

/-- Every other row is. -/
theorem isRejected_of_none {row : Option (List Text)}
    (h : importable atlas columns county row = none)
    (hhere : ∀ cells, row = some cells → isElsewhere columns county cells = false) :
    isRejected atlas columns county row = true := by
  cases row with
  | none => rfl
  | some cells =>
    rw [importable, Option.bind_some, hhere cells rfl, if_neg Bool.false_ne_true] at h
    rw [isRejected, Option.all_some, hhere cells rfl, h]
    rfl

/-- **Where every licence can be stored**, the rows that are passed over are those that are rejected. -/
theorem Contents.ImportsAll.sifts
    (h : Contents.ImportsAll atlas runId (rows.filterMap (importable atlas columns county)) os C C') :
    ∃ kept, Contents.Sifts atlas runId columns county rows kept C C' ∧
      rows.countP (isRejected atlas columns county) + kept.length = rows.length := by
  induction rows generalizing os C with
  | nil =>
    cases h
    exact ⟨[], .nil _, rfl⟩
  | cons row rows ih =>
    cases hrow : importable atlas columns county row with
    | some record =>
      rw [List.filterMap_cons_some hrow] at h
      cases h with
      | cons hrecord hrest =>
        obtain ⟨kept, hkept, hlength⟩ := ih hrest
        refine ⟨row :: kept, .stored hrow hrecord hkept, ?_⟩
        have hfine := not_isRejected (Or.inl (Option.isSome_of_mem hrow))
        rw [List.countP_cons_of_neg hfine, List.length_cons, List.length_cons]
        omega
    | none =>
      rw [List.filterMap_cons_none hrow] at h
      obtain ⟨kept, hkept, hlength⟩ := ih h
      by_cases helsewhere : ∃ cells, row = some cells ∧ isElsewhere columns county cells = true
      · have hfine := @not_isRejected atlas _ _ _ (Or.inr helsewhere)
        obtain ⟨cells, rfl, hcells⟩ := helsewhere
        refine ⟨some cells :: kept, .elsewhere hcells hkept, ?_⟩
        rw [List.countP_cons_of_neg hfine, List.length_cons, List.length_cons]
        omega
      · have hhere : ∀ cells, row = some cells → isElsewhere columns county cells = false :=
          fun cells hcells => eq_false_of_ne_true fun h => helsewhere ⟨cells, hcells, h⟩
        refine ⟨kept, .bad hhere (fun record hrecord => ?_) hkept, ?_⟩
        · cases hrow.symm.trans hrecord
        · rw [List.countP_cons_of_pos (isRejected_of_none hrow hhere), List.length_cons]
          omega

/-! ### A whole run -/

/-- **A bad row is only counted**: the run has succeeded, the rows that it has passed over are those
that cannot be stored, and the others are stored as they would be without them. -/
def Survives (atlas : Atlas) (options : ImportOptions) (columns : ColumnMap) (runId : Uuid)
    (C : Contents) (r : Except AppError RunCounts) (C' : Contents) : Prop :=
  ∃ counts kept C₁ now, r = .ok counts ∧
    C' = C₁.setRun runId (options.run.finish ⟨.succeeded, succeeded_ne_running⟩ counts none now) ∧
    counts.rejected + kept.length = options.file.rows.length ∧
    Contents.Sifts atlas runId columns options.county options.file.rows kept
      (C.setRun runId options.run) C₁ ∧
    Contents.Sifts atlas runId columns options.county kept kept (C.setRun runId options.run) C₁

/-- **A bad row is only counted** if each licence can be stored when its turn comes; a licence that
cannot be stored then ends the run. -/
theorem survives_iff (atlas : Atlas) (i : ℕ) {options : ImportOptions} {columns : ColumnMap}
    (hdry : options.dryRun = false) (hC : C.Lawful) (hbegins : C.Begins atlas options columns) :
    Yields atlas i none C (runImport atlas options) fun r C' =>
      ∃ runId turns, C.runs runId = none ∧
        Contents.Turns atlas runId (options.records atlas columns) turns
          (C.setRun runId options.run) ∧
        (Survives atlas options columns runId C r C' ↔ ∀ turn ∈ turns, turn.Fits atlas) := by
  refine (runImport_yields hdry).mono fun r C' h => ?_
  cases h with
  | refused hrefused => exact absurd hbegins (hrefused columns)
  | @finished columns' runId _ C₁ now hbegins' hid hrows =>
    obtain rfl := Except.ok.inj (hbegins.accepts.1.symm.trans hbegins'.accepts.1)
    have hstart : (C.setRun runId options.run).Lawful := hC.of_same rfl rfl
    cases r with
    | ok counts =>
      obtain ⟨os, hall, hgained⟩ := hrows.ok counts rfl
      obtain ⟨turns, hturns, hfits⟩ := hall.turns hstart (.nil C₁)
      rw [List.append_nil, List.append_nil] at hturns
      refine ⟨runId, turns, hid, hturns, iff_of_true ?_ hfits⟩
      obtain ⟨kept, hkept, hlength⟩ := hall.sifts
      refine ⟨counts, kept, C₁, now, rfl, rfl, ?_, hkept, hkept.absent⟩
      have hrejected : counts.rejected = 0 + options.rejected atlas columns := hgained.rejected
      rw [hrejected, Nat.zero_add]
      exact hlength
    | error e =>
      obtain ⟨turns, hturns, turn, hturn, hnot⟩ := (hrows.error e rfl).1.turns hstart
      refine ⟨runId, turns, hid, hturns, iff_of_false ?_ fun hfits => hnot (hfits turn hturn)⟩
      rintro ⟨counts, -, -, -, hr, -⟩
      cases hr

/-- An import of a licence into an empty database. -/
theorem survives_iff_registered : ∃ columns,
    ColumnMap.build .plain registerHeaders = .ok columns ∧
      Yields .plain 0 none (Db.published {}) (runImport .plain registered) fun r C' =>
        ∃ runId turns, Contents.Turns .plain runId (registered.records .plain columns) turns
            ((Db.published {}).setRun runId registered.run) ∧
          (Survives .plain registered columns runId (Db.published {}) r C' ↔
            ∀ turn ∈ turns, turn.Fits .plain) := by
  have hC : (Db.published {}).Lawful :=
    ⟨fun _ _ _ _ h => (nomatch h), fun _ _ _ h => (nomatch h), fun _ _ h => (nomatch h)⟩
  obtain ⟨columns, hbuild⟩ : ∃ columns, ColumnMap.build .plain registerHeaders = .ok columns :=
    ⟨_, dif_pos (by decide)⟩
  have hbegins : (Db.published {}).Begins .plain registered columns :=
    ⟨⟨hbuild, nofun⟩, by decide, fun ⟨_, _, h, _⟩ => (nomatch h)⟩
  refine ⟨columns, hbuild, (survives_iff .plain 0 rfl hC hbegins).mono ?_⟩
  rintro r C' ⟨runId, turns, -, h⟩
  exact ⟨runId, turns, h⟩

/-- A licence, and one whose number is too long to store, in one batch. -/
def withBadRow : ImportOptions := { oneByOne with batchSize := 500 }

/-- **A number that is too long ends the run**: it has failed, and the licence before it, which can
be stored, is not. -/
theorem not_survives : ∃ c, Reachable (registry .plain) anyQuery (.initial {}) c ∧
    c.Served 0 { request := .importFile withBadRow }
      (.error (.internal "a constraint is violated")) ∧
    (∃ run, (c.db.runs.slot 0).committed = some run ∧ run.status = .failed ∧ run.counts = {}) ∧
    c.db.licenses.published = [] := by
  have hrun := exists_of_exec (registry .plain)
    (.arrive 0 { request := .importFile withBadRow } :: List.replicate 22 (.run 0)) (.initial {})
    (fun c => decide (c.Served 0 { request := .importFile withBadRow }
        (.error (.internal "a constraint is violated"))) &&
      ((c.db.runs.slot 0).committed.any fun run =>
        decide (run.status = .failed) && decide (run.counts = {})) &&
      c.db.licenses.published.isEmpty)
    (by decide +kernel)
  obtain ⟨c, hc, hserved⟩ := hrun
  simp only [Bool.and_eq_true, decide_eq_true_eq, Option.any_eq_true, List.isEmpty_iff] at hserved
  obtain ⟨⟨hanswer, run, hrow, hfailed, hzero⟩, hnothing⟩ := hserved
  exact ⟨c, hc, hanswer, ⟨run, hrow, hfailed, hzero⟩, hnothing⟩

end Marketplace.Registry
