import Marketplace.Registry.Service

/-!
# Which queries a request issues

What a request may issue is read off its program once, for an arbitrary condition `φ` on queries.
What `φ` must allow is put together from what it must allow of the parts
(`Marketplace.Registry.AllowsLocation` and its companions): publishing a point, computing a badge,
importing a file, working on the queue, deciding a claim.
-/

namespace Marketplace.Registry

open Audit (AuditEvent)
open ReadCommitted
open Search (Point)

variable {atlas : Atlas} {φ : {β : Type} → Query β → Prop} {α : Type}

/-! ### The parts of programs -/

theorem each_record {event : AuditEvent} (h : φ (.record .tx event)) :
    (record event).run.Each φ := by
  refine ⟨h, fun id => ?_⟩
  cases id <;> trivial

theorem each_updateListing {m : Mode} {id : Uuid} {change : Change}
    (h : φ (.listing m (.update id change))) : (updateListing m id change).run.Each φ := by
  refine ⟨h, fun updated => ?_⟩
  cases updated <;> trivial

theorem each_inTransaction {fault : Option ℕ} {p : Registering α} (hc : φ .commit)
    (hr : φ .rollback) (h : p.run.Each φ) : (inTransaction fault p).run.Each φ :=
  Action.each_transaction hc hr (Action.each_failAt h fault)

/-- What publishing a point asks for. -/
structure AllowsLocation (φ : {β : Type} → Query β → Prop) : Prop where
  location : ∀ id precise published,
    φ (.listing .tx (.update id (.location precise published)))

theorem each_republish_on {id : Uuid}
    (h : ∀ precise published, φ (.listing .tx (.update id (.location precise published)))) :
    (republish atlas id).run.Each φ := by
  intro inputs
  cases inputs with
  | none => trivial
  | some inputs =>
    exact Action.each_andThen (each_updateListing (h _ _)) fun _ => trivial

theorem each_republish {id : Uuid} (h : AllowsLocation φ) : (republish atlas id).run.Each φ :=
  each_republish_on (h.location id)

theorem each_relocateAfterAddressChange {id : Uuid}
    (h : ∀ k hash now, φ (.job .tx (.enqueue k hash now))) :
    (relocateAfterAddressChange atlas id).run.Each φ := by
  intro address
  cases address with
  | none => trivial
  | some address => exact fun now => ⟨h _ _ now, fun _ => trivial⟩

/-- What computing a badge asks for. -/
structure AllowsBadge (φ : {β : Type} → Query β → Prop) : Prop where
  verification : ∀ id outcome now day,
    φ (.listing .tx (.update id (.verification outcome now day)))

theorem each_recompute_on {id : Uuid}
    (h : ∀ outcome now day, φ (.listing .tx (.update id (.verification outcome now day)))) :
    (recompute atlas id).run.Each φ :=
  fun _ _ _ => Action.each_andThen (each_updateListing (h _ _ _)) fun _ => trivial

theorem each_recompute {id : Uuid} (h : AllowsBadge φ) : (recompute atlas id).run.Each φ :=
  each_recompute_on (h.verification id)

theorem each_recomputeEach {ids : List Uuid} (h : AllowsBadge φ) :
    (recomputeEach atlas ids).run.Each φ := by
  induction ids with
  | nil => trivial
  | cons id ids ih => exact Action.each_andThen (each_recompute h) fun _ => ih

theorem each_recomputeAll {page pages : ℕ} {after : Option Uuid} {processed : ℕ} (hc : φ .commit)
    (hr : φ .rollback) (h : AllowsBadge φ) :
    (recomputeAll atlas page pages after processed).run.Each φ := by
  induction pages generalizing after processed with
  | zero => trivial
  | succ pages ih =>
    intro ids
    show (if ids.isEmpty then pure processed else _ : Registering ℕ).run.Each φ
    split
    · trivial
    · exact Action.each_andThen (Action.each_transaction hc hr (each_recomputeEach h)) fun _ => ih

/-! ### Imports -/

/-- What writing the trades of the register asks for. -/
structure AllowsTrades (φ : {β : Type} → Query β → Prop) : Prop where
  addTrade : ∀ id tradeId, φ (.trade .tx (.add ⟨id, tradeId, .cslb⟩))
  dropTrade : ∀ key, φ (.trade .tx (.drop key))

theorem each_replaceCslbTrades {id : Uuid} {tradeIds : List Uuid} (h : AllowsTrades φ) :
    (replaceCslbTrades id tradeIds).run.Each φ := by
  refine fun old => Action.each_andThen (Action.each_ofProg ?_) fun _ =>
    Action.each_andThen (Action.each_ofProg ?_) fun _ => trivial
  · exact Prog.each_countEach fun key => ⟨h.dropTrade key, fun _ => trivial⟩
  · induction tradeIds with
    | nil => trivial
    | cons tradeId tradeIds ih =>
      exact Prog.each_bind (p := .query _ .ret) ⟨h.addTrade id tradeId, fun _ => trivial⟩
        fun _ => Prog.each_bind ih fun _ => trivial

/-- What writing the listing of a licence asks for. -/
structure AllowsProject (φ : {β : Type} → Query β → Prop) : Prop
    extends AllowsLocation φ, AllowsBadge φ, AllowsTrades φ where
  insert : ∀ facts, φ (.listing .tx (.insert facts))
  displayName : ∀ id name, φ (.listing .tx (.update id (.displayName name)))
  postalCode : ∀ id code region, φ (.listing .tx (.update id (.postalCode code region)))
  enqueue : ∀ k hash now, φ (.job .tx (.enqueue k hash now))

/-- What writing a licence asks for. -/
structure AllowsLicenses (φ : {β : Type} → Query β → Prop) : Prop where
  license : ∀ {β : Type} (q : LicenseStatement β), φ (.license .tx q)
  addVersion : ∀ k hash version, φ (.addVersion .tx k hash version)

theorem each_upsert {runId : Uuid} {record : LicenseRecord} (h : AllowsLicenses φ) :
    (upsert runId record).run.Each φ := by
  intro now existing
  have hversion : ∀ {id : Uuid} {stored : StoredLicense},
      (do appendVersion runId id record; pure stored : Registering StoredLicense).run.Each φ :=
    fun {id stored} => Action.each_andThen ⟨h.addVersion _ _ _, fun _ => trivial⟩ fun _ => trivial
  cases existing with
  | none =>
    refine ⟨h.license _, fun inserted => ?_⟩
    cases inserted with
    | none => trivial
    | some id => exact hversion
  | some p =>
    show (if p.2 = record.contentHash then _ else _ : Registering StoredLicense).run.Each φ
    split
    · exact ⟨h.license _, fun _ => trivial⟩
    · refine ⟨h.license _, fun updated => ?_⟩
      cases updated with
      | none => trivial
      | some _ => exact hversion

section Run

variable (h : ∀ {β : Type} (q : RunStatement β), φ (.importRun .auto q))
include h

theorem each_beginRun {options : ImportOptions} : (beginRun atlas options).run.Each φ := by
  intro already
  cases already with
  | some id => trivial
  | none =>
    refine ⟨h _, fun begun => ?_⟩
    cases begun <;> trivial

theorem each_finishRun {runId : Uuid} {status : { s : RunStatus // s ≠ .running }}
    {counts : RunCounts} {errorText : Option String} :
    (finishRun runId status counts errorText).run.Each φ := by
  refine fun now => ⟨h _, fun finished => ?_⟩
  cases finished <;> trivial

theorem each_settleRun {runId : Uuid} {dryRun : Bool} {outcome : Except AppError RunCounts} :
    (settleRun runId dryRun outcome).run.Each φ := by
  cases outcome with
  | error e => exact Action.each_andThen (each_finishRun h) fun _ => trivial
  | ok counts =>
    show (if dryRun then _ else _ : Registering RunCounts).run.Each φ
    split <;> exact Action.each_andThen (each_finishRun h) fun _ => trivial

end Run

/-- **What importing a file asks for.** -/
structure AllowsImport (φ : {β : Type} → Query β → Prop) : Prop
    extends AllowsProject φ, AllowsLicenses φ where
  commit : φ .commit
  rollback : φ .rollback
  importRun : ∀ {β : Type} (q : RunStatement β), φ (.importRun .auto q)

section Project

variable (h : AllowsProject φ)
include h

theorem each_upsertFromLicense {facts : SourceFacts} : (upsertFromLicense facts).run.Each φ := by
  intro existing
  cases existing with
  | none =>
    refine ⟨h.insert _, fun inserted => ?_⟩
    cases inserted <;> trivial
  | some p =>
    refine Action.each_andThen ?_ fun _ => ?_
    · rw [refreshName]
      split
      · trivial
      · exact each_updateListing (h.displayName _ _)
    · show (if p.2.1 = facts.postalCode then _ else _ : Registering UpsertResult).run.Each φ
      split
      · trivial
      · exact Action.each_andThen (each_updateListing (h.postalCode _ _ _)) fun _ => trivial

theorem each_place {upserted : UpsertResult} : (place atlas upserted).run.Each φ := by
  rw [place]
  split
  · exact Action.each_andThen (each_republish h.toAllowsLocation) fun _ =>
      each_relocateAfterAddressChange h.enqueue
  · trivial

theorem each_project {id : Uuid} {record : LicenseRecord} : (project atlas id record).run.Each φ :=
  Action.each_andThen (each_upsertFromLicense h) fun _ =>
    Action.each_andThen (each_replaceCslbTrades h.toAllowsTrades) fun _ =>
      Action.each_andThen (each_place h) fun _ =>
        Action.each_andThen (each_recompute h.toAllowsBadge) fun _ => trivial

end Project

section Import

variable (h : AllowsImport φ)
include h

theorem each_importRecord {runId : Uuid} {record : LicenseRecord} {counts : RunCounts} :
    (importRecord atlas runId record counts).run.Each φ := by
  refine Action.each_andThen (each_upsert h.toAllowsLicenses) fun stored => ?_
  show (if stored.outcome = .unchanged then _ else _ : Registering RunCounts).run.Each φ
  split
  · trivial
  · exact Action.each_andThen (each_project h.toAllowsProject) fun _ => trivial

theorem each_importEach {runId : Uuid} {batch : List LicenseRecord} {counts : RunCounts} :
    (importEach atlas runId batch counts).run.Each φ := by
  induction batch generalizing counts with
  | nil => trivial
  | cons record batch ih => exact Action.each_andThen (each_importRecord h) fun _ => ih

theorem each_flush {runId : Uuid} {dryRun : Bool} {batch : List LicenseRecord}
    {counts : RunCounts} : (flush atlas runId dryRun batch counts).run.Each φ := by
  rw [flush]
  split
  · trivial
  · exact Action.each_transaction h.commit h.rollback (each_importEach h)

theorem each_importRows {runId : Uuid} {options : ImportOptions} {columns : ColumnMap}
    {rows : List (Option (List Text))} {batch : List LicenseRecord} {counts : RunCounts} :
    (importRows atlas runId options columns rows batch counts).run.Each φ := by
  induction rows generalizing batch counts with
  | nil =>
    rw [importRows]
    split
    · trivial
    · exact each_flush h
  | cons row rows ih =>
    cases row with
    | none => exact ih
    | some row =>
      rw [importRows]
      split
      · exact ih
      split
      split
      · exact Action.each_andThen (each_flush h) fun _ => ih
      · exact ih

theorem each_runImport {options : ImportOptions} : (runImport atlas options).run.Each φ := by
  rw [runImport]
  split
  · trivial
  split
  · trivial
  exact Action.each_andThen (each_beginRun h.importRun) fun runId =>
    Action.each_andThen (Action.each_ofProg (each_importRows h)) fun _ => each_settleRun h.importRun

end Import

/-- The rows of a dry run ask for nothing. -/
theorem each_importRows_dry {options : ImportOptions} (hdry : options.dryRun = true) {runId : Uuid}
    {columns : ColumnMap} {rows : List (Option (List Text))} {batch : List LicenseRecord}
    {counts : RunCounts} :
    (importRows atlas runId options columns rows batch counts).run.Each φ := by
  have hflush : ∀ {batch counts}, (flush atlas runId options.dryRun batch counts).run.Each φ := by
    intro batch counts
    rw [hdry]
    trivial
  induction rows generalizing batch counts with
  | nil =>
    rw [importRows]
    split
    · trivial
    · exact hflush
  | cons row rows ih =>
    cases row with
    | none => exact ih
    | some row =>
      rw [importRows]
      split
      · exact ih
      split
      split
      · exact Action.each_andThen hflush fun _ => ih
      · exact ih

/-- A dry run asks for nothing but the record of itself. -/
theorem each_runImport_dry {options : ImportOptions} (hdry : options.dryRun = true)
    (h : ∀ {β : Type} (q : RunStatement β), φ (.importRun .auto q)) :
    (runImport atlas options).run.Each φ := by
  rw [runImport]
  split
  · trivial
  split
  · trivial
  exact Action.each_andThen (each_beginRun h) fun runId =>
    Action.each_andThen (Action.each_ofProg (each_importRows_dry hdry)) fun _ => each_settleRun h

/-- Deriving the trades of the register again. -/
theorem each_rederiveCslbTrades (hc : φ .commit) (hr : φ .rollback)
    (hadd : ∀ key, φ (.trade .tx (.add key))) (hdrop : ∀ key, φ (.trade .tx (.drop key))) :
    (rederiveCslbTrades atlas).run.Each φ := by
  refine Action.each_andThen (Action.each_transaction hc hr fun derived => ?_) fun added =>
    Action.each_andThen (Action.each_transaction hc hr fun stale => ?_) fun _ => trivial
  · exact Action.each_ofProg (Prog.each_countEach fun key => ⟨hadd key, fun _ => trivial⟩)
  · exact Action.each_ofProg (Prog.each_countEach fun key => ⟨hdrop key, fun _ => trivial⟩)

/-! ### The worker -/

/-- What the worker asks of the queue. -/
structure AllowsQueue (φ : {β : Type} → Query β → Prop) : Prop where
  commit : φ .commit
  rollback : φ .rollback
  job : ∀ {β : Type} (m : Mode) (q : JobStatement β), φ (.job m q)

theorem each_requeueStalled {staleAfterSecs : ℕ} (h : AllowsQueue φ) :
    (requeueStalled staleAfterSecs).run.Each φ :=
  Action.each_transaction h.commit h.rollback fun _ _ =>
    Action.each_ofProg (Prog.each_countEach fun _ => ⟨h.job _ _, fun _ => trivial⟩)

theorem each_claim {worker : Text} {limit : ℕ} (h : AllowsQueue φ) :
    (claim worker limit).run.Each φ := by
  refine Action.each_transaction h.commit h.rollback fun now due =>
    Action.each_ofProg (Prog.each_takeEach (fun k => ?_) _ _)
  exact ⟨h.job _ _, fun _ => trivial⟩

/-- **What a pass over the queue asks for.** -/
structure AllowsPass (φ : {β : Type} → Query β → Prop) : Prop
    extends AllowsLocation φ, AllowsQueue φ where
  precisePoint : ∀ id p, φ (.listing .tx (.update id (.precisePoint p)))

section Pass

variable (h : AllowsPass φ)
include h

theorem each_applyGeocode {id : Uuid} {p : Point} : (applyGeocode atlas id p).run.Each φ := by
  intro inputs
  cases inputs with
  | none => trivial
  | some inputs =>
    exact Action.each_andThen (each_updateListing (h.precisePoint _ _)) fun _ =>
      each_republish h.toAllowsLocation

theorem each_attempt {config : WorkerConfig} {job : Job} {stats : Stats} :
    (attempt atlas config job stats).run.Each φ := by
  intro address
  cases address with
  | none => exact ⟨h.job _ _, fun _ => trivial⟩
  | some address =>
    intro located
    cases located with
    | found p =>
      refine Action.each_andThen (Action.each_transaction h.commit h.rollback ?_) fun _ => trivial
      exact Action.each_andThen (each_applyGeocode h) fun _ => ⟨h.job _ _, fun _ => trivial⟩
    | notFound => exact ⟨h.job _ _, fun _ => trivial⟩
    | error message =>
      refine Action.each_andThen (fun now => ⟨h.job _ _, fun status => ?_⟩) fun _ => trivial
      rcases status with _ | _ | status <;> trivial

theorem each_runOnce {config : WorkerConfig} : (runOnce atlas config).run.Each φ := by
  refine Action.each_andThen (each_requeueStalled h.toAllowsQueue) fun requeued =>
    Action.each_andThen (each_claim h.toAllowsQueue) fun jobs => ?_
  generalize ({ requeued := requeued, claimed := jobs.length } : Stats) = stats
  induction jobs generalizing stats with
  | nil => trivial
  | cons job jobs ih => exact Action.each_andThen (each_attempt h) ih

end Pass

/-! ### Claims -/

theorem each_claimsDecide {id decidedBy : Uuid} {status : Decided} {note : Option Text}
    (h : ∀ now, φ (.claim .tx (.decide id status decidedBy note now))) :
    (Claims.decide id status decidedBy note).run.Each φ := by
  refine fun now => ⟨h now, fun decided => ?_⟩
  rcases decided with _ | _ | decided <;> trivial

theorem each_attachClaimant {id userId : Uuid} (h : ∀ now, φ (.listing .tx (.attach id userId now))) :
    (attachClaimant id userId).run.Each φ := by
  refine fun now => ⟨h now, fun attached => ?_⟩
  rcases attached with _ | _ | attached <;> trivial

/-- What opening a claim on a listing and deciding one ask for. -/
structure AllowsDecisionOn (φ : {β : Type} → Query β → Prop) (contractorId : Uuid) : Prop where
  verification : ∀ outcome now day,
    φ (.listing .tx (.update contractorId (.verification outcome now day)))
  decide : ∀ id status decidedBy note now, φ (.claim .tx (.decide id status decidedBy note now))
  attach : ∀ userId now, φ (.listing .tx (.attach contractorId userId now))
  grantRole : ∀ userId role grant, φ (.grantRole .tx userId role grant)
  recordCheck : ∀ check, φ (.recordCheck .tx check)
  record : ∀ event, φ (.record .tx event)

/-- What opening a claim on a listing asks for. -/
structure AllowsClaimOn (φ : {β : Type} → Query β → Prop) (contractorId : Uuid) : Prop
    extends AllowsDecisionOn φ contractorId where
  insert : ∀ claim, φ (.claim .tx (.insert claim))

/-- **What opening a claim and deciding one ask for.** -/
structure AllowsClaim (φ : {β : Type} → Query β → Prop) : Prop extends AllowsBadge φ where
  insert : ∀ claim, φ (.claim .tx (.insert claim))
  decide : ∀ id status decidedBy note now, φ (.claim .tx (.decide id status decidedBy note now))
  attach : ∀ id userId now, φ (.listing .tx (.attach id userId now))
  grantRole : ∀ userId role grant, φ (.grantRole .tx userId role grant)
  recordCheck : ∀ check, φ (.recordCheck .tx check)
  record : ∀ event, φ (.record .tx event)

theorem AllowsClaim.on (h : AllowsClaim φ) (contractorId : Uuid) : AllowsClaimOn φ contractorId where
  verification := h.verification contractorId
  decide := h.decide
  attach := h.attach contractorId
  grantRole := h.grantRole
  recordCheck := h.recordCheck
  record := h.record
  insert := h.insert

section Claim

theorem each_openRow_on {contractorId userId : Uuid} {method : ClaimMethod} {evidence : Text}
    {requestId : Option Uuid} (h : AllowsClaimOn φ contractorId) :
    (openRow atlas contractorId userId method evidence requestId).run.Each φ := by
  intro target
  rcases target with _ | _ | _
  · trivial
  · intro owned
    show (if owned.isSome then _ else _ : Registering Claim).run.Each φ
    split
    · trivial
    refine Action.each_andThen (fun now => ⟨h.insert _, fun opened => ?_⟩) fun id => ?_
    · rcases opened with _ | _ | opened <;> trivial
    refine Action.each_andThen (each_record (h.record _)) fun _ =>
      Action.each_andThen (each_claimsDecide (h.decide _ _ _ _)) fun _ =>
        Action.each_andThen (each_attachClaimant (h.attach _)) fun attached => ?_
    cases attached with
    | false => trivial
    | true =>
      refine ⟨h.grantRole _ _ _, fun _ => ?_⟩
      refine Action.each_andThen (each_recompute_on h.verification) fun outcome =>
        Action.each_andThen (each_record (h.record _)) fun _ approved => ?_
      cases approved <;> trivial
  · trivial

/-- What `decide` does with the claim that it has found. -/
theorem each_decideFound {id : Uuid} {approve : Bool} {adminId : Uuid} {note : Option Text}
    {requestId : Option Uuid} {claim : Claim} (h : AllowsDecisionOn φ claim.contractorId) :
    (if claim.status ≠ .pending then throw (.conflict "That claim has already been decided.")
      else do
        let hit ← Claims.decide id (verdict approve) adminId note
        if hit then do
          transfer approve claim adminId
          recordCheck (manualReview id claim approve adminId note)
          let outcome ← recompute atlas claim.contractorId
          record (decided id claim approve adminId outcome requestId)
          pure outcome
        else throw (.conflict "That claim has already been decided.") :
          Registering Outcome).run.Each φ := by
  split
  · trivial
  refine Action.each_andThen (each_claimsDecide (h.decide _ _ _ _)) fun hit => ?_
  cases hit with
  | false => trivial
  | true =>
    refine Action.each_andThen ?_ fun _ => Action.each_andThen ⟨h.recordCheck _, fun id => ?_⟩
      fun _ => Action.each_andThen (each_recompute_on h.verification) fun outcome =>
        Action.each_andThen (each_record (h.record _)) fun _ => trivial
    · rw [transfer]
      split
      · refine Action.each_andThen (each_attachClaimant (h.attach _)) fun attached => ?_
        cases attached with
        | false => trivial
        | true => exact ⟨h.grantRole _ _ _, fun _ => trivial⟩
      · trivial
    · cases id <;> trivial

variable (h : AllowsClaim φ)
include h

theorem each_openRow {contractorId userId : Uuid} {method : ClaimMethod} {evidence : Text}
    {requestId : Option Uuid} :
    (openRow atlas contractorId userId method evidence requestId).run.Each φ :=
  each_openRow_on (h.on contractorId)

theorem each_decideRow {id : Uuid} {approve : Bool} {adminId : Uuid} {note : Option Text}
    {requestId : Option Uuid} :
    (decideRow atlas id approve adminId note requestId).run.Each φ := by
  intro claim
  cases claim with
  | none => trivial
  | some claim => exact each_decideFound (h.on claim.contractorId).toAllowsDecisionOn

end Claim

theorem each_withdrawRow {id userId : Uuid} {requestId : Option Uuid}
    (hdecide : ∀ now, φ (.claim .tx (.decide id ⟨.withdrawn, nofun⟩ userId none now)))
    (hrecord : ∀ event, φ (.record .tx event)) :
    (withdrawRow id userId requestId).run.Each φ := by
  intro claim
  cases claim with
  | none => trivial
  | some claim =>
    show (if claim.userId ≠ userId then _ else _ : Registering Unit).run.Each φ
    split
    · trivial
    split
    · trivial
    exact Action.each_andThen (each_claimsDecide hdecide) fun _ => each_record (hrecord _)

/-! ### Profiles -/

theorem each_ownedListing {userId id : Uuid} {p : Registering α} (h : p.run.Each φ) :
    (ownedListing userId id p).run.Each φ := by
  intro owned
  show (if owned = some id then p else throw .notFound).run.Each φ
  split
  · exact h
  · trivial

theorem each_requireClaimant {userId id : Uuid} {p : Registering α} (h : p.run.Each φ) :
    (requireClaimant userId id p).run.Each φ := by
  intro owned
  show (if owned = some id then p else throw .forbidden).run.Each φ
  split
  · exact h
  · trivial

section Edit

variable {id : Uuid}
  (h : ∀ precise published, φ (.listing .tx (.update id (.location precise published))))
  (henqueue : ∀ k hash now, φ (.job .tx (.enqueue k hash now)))
include h henqueue

theorem each_followEdit_on {update : ProfileUpdate} : (followEdit atlas id update).run.Each φ := by
  refine Action.each_andThen ?_ fun _ => ?_
  · split
    · exact Action.each_andThen (each_republish_on h) fun _ => trivial
    · trivial
  · show (if update.ownerAddress = .unchanged then _ else _ : Registering Unit).run.Each φ
    split
    · trivial
    · exact each_relocateAfterAddressChange henqueue

/-- What a profile edit asks for, once it is known that the caller may. -/
theorem each_editProfile {fault later : Option ℕ} {body : UpdateProfileRequest} (hc : φ .commit)
    (hr : φ .rollback) (hprofile : ∀ update, φ (.listing .tx (.update id (.profile update)))) :
    (match body.update with
      | .ok update => do
        inTransaction fault (profileRow atlas id update)
        Registering.failAt later (rereadListing id)
      | .error e => throw e : Registering Contractor).run.Each φ := by
  split
  · refine Action.each_andThen (each_inTransaction hc hr ?_) fun _ =>
      Action.each_failAt ?_ later
    · exact Action.each_andThen (each_updateListing (hprofile _)) fun _ =>
        each_followEdit_on h henqueue
    · intro stored
      cases stored <;> trivial
  · trivial

end Edit

theorem each_followEdit {id : Uuid} {update : ProfileUpdate} (h : AllowsLocation φ)
    (henqueue : ∀ k hash now, φ (.job .tx (.enqueue k hash now))) :
    (followEdit atlas id update).run.Each φ :=
  each_followEdit_on (h.location id) henqueue

theorem each_updateProfile {fault later : Option ℕ} {caller id : Uuid}
    {body : UpdateProfileRequest} (h : AllowsLocation φ) (hc : φ .commit) (hr : φ .rollback)
    (hprofile : ∀ update, φ (.listing .tx (.update id (.profile update))))
    (henqueue : ∀ k hash now, φ (.job .tx (.enqueue k hash now))) :
    (updateProfile atlas fault later caller id body).run.Each φ := by
  rw [updateProfile]
  split
  · trivial
  intro owner
  show (if owner = some id then _ else throw .forbidden : Registering Contractor).run.Each φ
  split
  · exact each_editProfile (h.location id) henqueue hc hr hprofile
  · trivial

theorem each_setPhoto {fault : Option ℕ} {caller id key : Uuid} {bytes : List UInt8}
    (h : ∀ photo, φ (.listing .auto (.update id (.photo photo)))) :
    (setPhoto atlas fault caller id key bytes).run.Each φ := by
  refine Action.each_failAt (each_ownedListing ?_) fault
  split
  · trivial
  · exact Action.each_andThen (each_updateListing (h _)) fun _ => trivial

theorem each_removePhoto {fault : Option ℕ} {caller id : Uuid}
    (h : ∀ photo, φ (.listing .auto (.update id (.photo photo)))) :
    (removePhoto fault caller id).run.Each φ :=
  Action.each_failAt (each_ownedListing (each_updateListing (h none))) fault

theorem each_addAreas {id : Uuid} {codes : List Text} (h : ∀ key, φ (.area .auto (.add key))) :
    (addAreas atlas id codes).run.Each φ := by
  induction codes with
  | nil => trivial
  | cons code codes ih =>
    refine Action.each_andThen ?_ fun _ => Action.each_andThen ih fun _ => trivial
    rw [addArea]
    split
    · exact ⟨h _, fun _ => trivial⟩
    · trivial

theorem each_putServiceAreas {caller id : Uuid} {inputs : List ServiceAreaInput} (hc : φ .commit)
    (hr : φ .rollback)
    (hradius : ∀ radiusM, φ (.listing .auto (.update id (.serviceRadius radiusM))))
    (hadd : ∀ key, φ (.area .auto (.add key))) (hdrop : ∀ key, φ (.area .tx (.drop key))) :
    (putServiceAreas atlas caller id inputs).run.Each φ := by
  rw [putServiceAreas]
  split
  · trivial
  refine each_requireClaimant (Action.each_andThen (Action.each_transaction hc hr fun old => ?_)
    fun _ => Action.each_andThen (each_updateListing (hradius _)) fun _ => each_addAreas hadd)
  exact Action.each_ofProg (Prog.each_countEach fun key => ⟨hdrop key, fun _ => trivial⟩)

end Marketplace.Registry
