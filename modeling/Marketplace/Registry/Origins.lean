import Marketplace.Registry.Authors
import Marketplace.Registry.PublicPoints
import Marketplace.ReadCommitted.Provenance

/-!
# Where points and badges come from

The worker asks a geocoder about an address that it has read, and writes the point some statements
later; a badge is computed of a claim and a licence that have been read one after the other, by three
kinds of requests. Nothing is held meanwhile, so that what is written may be out of date by then. But
it is never made up: a point is that of an address which the listing itself has had in the run
(`Marketplace.Registry.point_located`), and a listing with a badge was seen claimed, and its licence
active, by whoever computed it (`Marketplace.Registry.badge_earned`).
-/

namespace Marketplace.Registry

open ReadCommitted
open Search (Point)

variable {atlas : Atlas} {α β : Type} {i : ℕ} {id k : Uuid} {p : Point}

/-! ### Origins -/

/-- A listing is at a point, exactly: for itself, or in public. -/
def Contractor.IsAt (l : Contractor) (p : Point) : Prop :=
  l.precisePoint = some p ∨ l.toPublication = .exact p

/-- What the columns of the badge say after an outcome. -/
def Outcome.stamped (outcome : Outcome) (now : Instant) (day : ℕ) : Facet.badge.Value :=
  (outcome.verified, if outcome.verified then some now else none, some outcome.reason, some day)

/-- **Where the exact points and the badges of listings may come from.** -/
structure Origins where
  point : Uuid → Point → Prop
  badge : Uuid → Facet.badge.Value → Prop
  /-- Anybody may be without a badge. -/
  blank : ∀ k, badge k Facet.badge.blank

variable {O : Origins}

/-- A listing whose point and badge come from there. -/
structure Contractor.From (O : Origins) (k : Uuid) (l : Contractor) : Prop where
  point : ∀ p, l.IsAt p → O.point k p
  badge : O.badge k (Facet.badge.read l)

/-- An update that writes a point or a badge from there. -/
def Change.From (O : Origins) (k : Uuid) : Change → Prop
  | .precisePoint p => O.point k p
  | .location precise published => ∀ p, precise = some p ∨ published = .exact p → O.point k p
  | .verification outcome now day => O.badge k (outcome.stamped now day)
  | _ => True

/-- The query writes no other points or badges. -/
def Query.From (O : Origins) : Query β → Prop
  | .listing _ (.update k change) => change.From O k
  | _ => True

theorem Contractor.From.apply {l : Contractor} {change : Change} (h : l.From O k)
    (hchange : change.From O k) : (change.apply l).From O k := by
  cases change with
  | precisePoint q =>
    refine ⟨?_, h.badge⟩
    rintro p (hp | hp)
    · exact Option.some.inj hp ▸ hchange
    · exact h.point p (Or.inr hp)
  | location precise published => exact ⟨hchange, h.badge⟩
  | verification outcome now day => exact ⟨h.point, hchange⟩
  | displayName | postalCode | profile | photo | serviceRadius => exact ⟨h.point, h.badge⟩

/-- A new listing has neither. -/
theorem from_row (facts : SourceFacts) : facts.row.From O k := by
  refine ⟨?_, O.blank k⟩
  rintro p (hp | hp)
  · cases hp
  · cases congrArg Publication.publicPoint hp

theorem from_of_writes {q : Query β} {o : Option Contractor} {l : Contractor} (hq : q.From O)
    (h : q.writesListing k o l) (ho : ∀ l₀, o = some l₀ → l₀.From O k) : l.From O k := by
  cases q with
  | listing m q =>
    cases q with
    | insert facts =>
      obtain ⟨-, -, rfl⟩ := h
      exact from_row facts
    | update id change =>
      obtain ⟨rfl, -, c, hc, rfl⟩ := h
      exact (ho c hc).apply hq
    | attach id userId now =>
      obtain ⟨-, c, hc, -, rfl⟩ := h
      exact ⟨(ho c hc).point, (ho c hc).badge⟩
  | license | addVersion | importRun | trade | area | job | claim | grantRole | recordCheck
  | record | commit | rollback => exact h.elim

/-! ### Programs -/

theorem informed_updateListing {J : Told Db Query} {m : Mode} {change : Change}
    (h : change.From O id) : (updateListing m id change).run.Informed i J (Query.From O) :=
  Prog.informed_of_each (each_updateListing h)

/-- What is published exactly is the precise point. -/
theorem precisePoint_of_published {inputs : LocationInputs} (h : published atlas inputs = .exact p) :
    inputs.precisePoint = some p := by
  rw [published] at h
  split at h
  · rename_i q hvisible hq
    rw [hq]
    exact congrArg Publication.publicPoint h
  · split at h
    · cases congrArg Publication.publicPointSource h
    · cases congrArg Publication.publicPointSource h

section Programs

variable (J : Told Db Query)

/-- **States that are looked at**, one after the other: their listings have their points and badges
from where they may be from, and so has what is made of them. -/
structure Grounds (atlas : Atlas) (O : Origins) (J : Told Db Query) : Prop where
  rows : ∀ {t s}, J.look t s → s.contractors.Holds (Contractor.From O)
  /-- What the geocoder finds for an address that is read is a point of the listing. -/
  located : ∀ {t s i k a p}, J.look t s → s.addressFor i k = some a → atlas.locate a = some p →
    O.point k p
  /-- What is made of a claim, a licence and a day that are read is a badge of the listing. -/
  decided : ∀ {t s₁ s₂ s₃ i k}, J.look t s₁ → J.look s₁ s₂ → J.look s₂ s₃ →
    O.badge k ((decideBadge atlas (today s₃.clock)
    ((s₁.contractors.row i k).elim false Contractor.isClaimed)
    ((s₂.contractors.row i k).bind (s₂.licenseOf i))).stamped s₃.clock (today s₃.clock))

variable {J} (hJ : Grounds atlas O J)
include hJ

theorem informed_republish : (republish atlas id).run.Informed i J (Query.From O) := by
  refine Action.informed_look fun t s hs => ?_
  cases hrow : s.contractors.row i id with
  | none => exact fun _ => trivial
  | some l =>
    have hl : l.From O id := (hJ.rows hs).row hrow
    refine Action.informed_andThen (informed_updateListing ?_) fun _ _ => trivial
    rintro p (hp | hp)
    · exact hl.point p (Or.inl hp)
    · exact hl.point p (Or.inl (precisePoint_of_published hp))

/-- **A badge is computed of what is read.** -/
theorem informed_recompute : (recompute atlas id).run.Informed i J (Query.From O) := by
  intro t s₁ h₁ s₂ h₂ s₃ h₃
  have hclaimed : ((s₁.contractors.row i id).map (Contractor.locationInputs id)).elim false
      LocationInputs.isClaimed = (s₁.contractors.row i id).elim false Contractor.isClaimed := by
    cases s₁.contractors.row i id <;> rfl
  have hbadge := hJ.decided (i := i) (k := id) h₁ h₂ h₃
  rw [← hclaimed] at hbadge
  have hupdate : ∀ {outcome : Outcome}, O.badge id (outcome.stamped s₃.clock (today s₃.clock)) →
      (do updateListing .tx id (.verification outcome s₃.clock (today s₃.clock))
          pure outcome : Registering Outcome).run.Informed i J (Query.From O) := fun h =>
    Action.informed_andThen (informed_updateListing h) fun _ _ => trivial
  exact hupdate hbadge s₃

theorem informed_recomputeEach {ids : List Uuid} :
    (recomputeEach atlas ids).run.Informed i J (Query.From O) := by
  induction ids with
  | nil => exact fun _ => trivial
  | cons id ids ih => exact Action.informed_andThen (informed_recompute hJ) fun _ => ih

theorem informed_recomputeAll {page pages : ℕ} {after : Option Uuid} {processed : ℕ} :
    (recomputeAll atlas page pages after processed).run.Informed i J (Query.From O) := by
  induction pages generalizing after processed with
  | zero => exact fun _ => trivial
  | succ pages ih =>
    refine Action.informed_look fun t s _ => ?_
    split
    · exact fun _ => trivial
    · exact Action.informed_andThen
        (Action.informed_transaction trivial trivial (informed_recomputeEach hJ)) fun _ => ih

/-! ### Imports -/

theorem informed_place {upserted : UpsertResult} :
    (place atlas upserted).run.Informed i J (Query.From O) := by
  rw [place]
  split
  · exact Action.informed_andThen (informed_republish hJ) fun _ =>
      Prog.informed_of_each (each_relocateAfterAddressChange fun _ _ _ => trivial)
  · exact fun _ => trivial

omit hJ in
theorem informed_upsertFromLicense {facts : SourceFacts} :
    (upsertFromLicense facts).run.Informed i J (Query.From O) := by
  refine Action.informed_look fun t s _ => ?_
  cases (s.listingOf i facts.licenseRecordId).map fun p => (p.1, p.2.postalCode, p.2.isClaimed) with
  | none =>
    refine Action.informed_query trivial fun inserted _ => ?_
    cases inserted <;> exact fun _ => trivial
  | some p =>
    refine Action.informed_andThen ?_ fun _ => ?_
    · rw [refreshName]
      split
      · exact fun _ => trivial
      · exact informed_updateListing trivial
    · show (if p.2.1 = facts.postalCode then _ else _ : Registering UpsertResult).run.Informed i J _
      split
      · exact fun _ => trivial
      · exact Action.informed_andThen (informed_updateListing trivial) fun _ _ => trivial

theorem informed_project {record : LicenseRecord} :
    (project atlas id record).run.Informed i J (Query.From O) :=
  Action.informed_andThen informed_upsertFromLicense fun _ =>
    Action.informed_andThen
      (Prog.informed_of_each (each_replaceCslbTrades ⟨fun _ _ => trivial, fun _ => trivial⟩)) fun _ =>
      Action.informed_andThen (informed_place hJ) fun _ =>
        Action.informed_andThen (informed_recompute hJ) fun _ _ => trivial

theorem informed_importEach {runId : Uuid} {batch : List LicenseRecord} {counts : RunCounts} :
    (importEach atlas runId batch counts).run.Informed i J (Query.From O) := by
  induction batch generalizing counts with
  | nil => exact fun _ => trivial
  | cons record batch ih =>
    refine Action.informed_andThen (Action.informed_andThen (Prog.informed_of_each
      (each_upsert ⟨fun _ => trivial, fun _ _ _ => trivial⟩)) fun stored => ?_) fun _ => ih
    show (if stored.outcome = .unchanged then _ else _ : Registering RunCounts).run.Informed i J _
    split
    · exact fun _ => trivial
    · exact Action.informed_andThen (informed_project hJ) fun _ _ => trivial

theorem informed_flush {runId : Uuid} {dryRun : Bool} {batch : List LicenseRecord}
    {counts : RunCounts} :
    (flush atlas runId dryRun batch counts).run.Informed i J (Query.From O) := by
  rw [flush]
  split
  · exact fun _ => trivial
  · exact Action.informed_transaction trivial trivial (informed_importEach hJ)

theorem informed_importRows {runId : Uuid} {options : ImportOptions} {columns : ColumnMap}
    {rows : List (Option (List Text))} {batch : List LicenseRecord} {counts : RunCounts} :
    (importRows atlas runId options columns rows batch counts).run.Informed i J (Query.From O) := by
  induction rows generalizing batch counts with
  | nil =>
    rw [importRows]
    split
    · exact fun _ => trivial
    · exact informed_flush hJ
  | cons row rows ih =>
    cases row with
    | none => exact ih
    | some row =>
      rw [importRows]
      split
      · exact ih
      split
      split
      · exact Action.informed_andThen (informed_flush hJ) fun _ => ih
      · exact ih

theorem informed_runImport {options : ImportOptions} :
    (runImport atlas options).run.Informed i J (Query.From O) := by
  rw [runImport]
  split
  · exact fun _ => trivial
  split
  · exact fun _ => trivial
  exact Action.informed_andThen (Prog.informed_of_each (each_beginRun fun _ => trivial)) fun runId =>
    Action.informed_andThen (Prog.Informed.bind (informed_importRows hJ) fun _ _ => trivial) fun _ =>
      Prog.informed_of_each (each_settleRun fun _ => trivial)

/-! ### The worker -/

/-- **A point is found for an address that is read.** -/
theorem informed_attempt {config : WorkerConfig} {job : Job} {stats : Stats} :
    (attempt atlas config job stats).run.Informed i J (Query.From O) := by
  refine Action.informed_look fun t s hs => ?_
  cases haddress : s.addressFor i job.contractorId with
  | none => exact Action.informed_query trivial fun _ _ _ => trivial
  | some address =>
    refine Action.informed_look fun _ s' _ => ?_
    rw [Atlas.answer]
    cases atlas.outage i s'.clock address with
    | some message =>
      refine Prog.informed_of_each (Action.each_andThen (fun now => ⟨trivial, fun status => ?_⟩)
        fun _ => trivial)
      rcases status with _ | _ | status <;> trivial
    | none =>
      cases hlocate : atlas.locate address with
      | none => exact Action.informed_query trivial fun _ _ _ => trivial
      | some p =>
        refine Action.informed_andThen (Action.informed_transaction trivial trivial
          (Action.informed_andThen (Action.informed_look fun _ s'' _ => ?_) fun _ =>
            Action.informed_query trivial fun _ _ _ => trivial)) fun _ _ => trivial
        cases (s''.contractors.row i job.contractorId).map
            (Contractor.locationInputs job.contractorId) with
        | none => exact fun _ => trivial
        | some inputs =>
          exact Action.informed_andThen (informed_updateListing (hJ.located hs haddress hlocate))
            fun _ => informed_republish hJ

theorem informed_runOnce {config : WorkerConfig} :
    (runOnce atlas config).run.Informed i J (Query.From O) := by
  have hqueue : AllowsQueue (Query.From O) := ⟨trivial, trivial, fun _ _ => trivial⟩
  refine Action.informed_andThen (Prog.informed_of_each (each_requeueStalled hqueue)) fun requeued =>
    Action.informed_andThen (Prog.informed_of_each (each_claim hqueue)) fun jobs => ?_
  generalize ({ requeued := requeued, claimed := jobs.length } : Stats) = stats
  induction jobs generalizing stats with
  | nil => exact fun _ => trivial
  | cons job jobs ih => exact Action.informed_andThen (informed_attempt hJ) ih

/-! ### Claims and profiles -/

theorem informed_openRow {contractorId userId : Uuid} {method : ClaimMethod} {evidence : Text}
    {requestId : Option Uuid} :
    (openRow atlas contractorId userId method evidence requestId).run.Informed i J
      (Query.From O) := by
  refine Action.informed_look fun _ s _ => ?_
  rcases (s.contractors.row i contractorId).map Contractor.claimedByUserId with _ | _ | _
  · exact fun _ => trivial
  · refine Action.informed_look fun _ s' _ => ?_
    split
    · exact fun _ => trivial
    refine Action.informed_andThen (Prog.informed_of_each fun now => ⟨trivial, fun opened => ?_⟩)
      fun claimId => ?_
    · rcases opened with _ | _ | opened <;> trivial
    refine Action.informed_andThen (Prog.informed_of_each (each_record trivial)) fun _ =>
      Action.informed_andThen (Prog.informed_of_each (each_claimsDecide fun _ => trivial)) fun _ =>
        Action.informed_andThen (Prog.informed_of_each (each_attachClaimant fun _ => trivial))
          fun attached => ?_
    cases attached with
    | false => exact fun _ => trivial
    | true =>
      refine Action.informed_query trivial fun _ _ =>
        Action.informed_andThen (informed_recompute hJ) fun outcome =>
          Action.informed_andThen (Prog.informed_of_each (each_record trivial)) fun _ =>
            Prog.informed_of_each fun approved => ?_
      cases approved <;> trivial
  · exact fun _ => trivial

theorem informed_decideRow {approve : Bool} {adminId : Uuid} {note : Option Text}
    {requestId : Option Uuid} :
    (decideRow atlas id approve adminId note requestId).run.Informed i J (Query.From O) := by
  refine Action.informed_look fun _ s _ => ?_
  cases s.claims.row i id with
  | none => exact fun _ => trivial
  | some claim =>
    show (if claim.status ≠ .pending then _ else _ : Registering Outcome).run.Informed i J _
    split
    · exact fun _ => trivial
    refine Action.informed_andThen (Prog.informed_of_each (each_claimsDecide fun _ => trivial))
      fun hit => ?_
    cases hit with
    | false => exact fun _ => trivial
    | true =>
      refine Action.informed_andThen (Prog.informed_of_each ?_) fun _ =>
        Action.informed_andThen (Prog.informed_of_each ⟨trivial, fun id => ?_⟩) fun _ =>
          Action.informed_andThen (informed_recompute hJ) fun outcome =>
            Action.informed_andThen (Prog.informed_of_each (each_record trivial)) fun _ _ =>
              trivial
      · rw [transfer]
        split
        · refine Action.each_andThen (each_attachClaimant fun _ => trivial) fun attached => ?_
          cases attached with
          | false => trivial
          | true => exact ⟨trivial, fun _ => trivial⟩
        · trivial
      · cases id <;> trivial

theorem informed_profileRow {update : ProfileUpdate} :
    (profileRow atlas id update).run.Informed i J (Query.From O) := by
  have hprofile : (updateListing .tx id (.profile update)).run.Informed i J (Query.From O) :=
    informed_updateListing trivial
  refine Action.informed_andThen hprofile fun _ => Action.informed_andThen ?_ fun _ =>
    Prog.informed_of_each ?_
  · split
    · exact Action.informed_andThen (informed_republish hJ) fun _ _ => trivial
    · exact fun _ => trivial
  · split
    · trivial
    · exact each_relocateAfterAddressChange fun _ _ _ => trivial

theorem informed_updateProfile {fault later : Option ℕ} {caller : Uuid}
    {body : UpdateProfileRequest} :
    (updateProfile atlas fault later caller id body).run.Informed i J (Query.From O) := by
  rw [updateProfile]
  split
  · exact fun _ => trivial
  refine Action.informed_look fun _ s _ => ?_
  split
  · split
    · rename_i update _
      refine Action.informed_andThen (Action.informed_transaction trivial trivial
        (Prog.Informed.failAt (informed_profileRow hJ) fault)) fun _ =>
          Prog.informed_of_each (Action.each_failAt ?_ later)
      intro stored
      cases stored <;> trivial
    · exact fun _ => trivial
  · exact fun _ => trivial

/-- **Every request writes points and badges of what it has read**, and no others. -/
theorem informed_serve (call : Call) : (serve atlas call).run.Informed i J (Query.From O) := by
  have hanswer {α : Type} {p : Registering α} {f : α → Response}
      (h : p.run.Informed i J (Query.From O)) :
      (p >>= fun a => pure (f a)).run.Informed i J (Query.From O) :=
    Action.informed_andThen h fun _ _ => trivial
  obtain ⟨request, requestId, fault, later⟩ := call
  cases request with
  | importFile options => exact hanswer (informed_runImport hJ)
  | rederive =>
    exact hanswer (Prog.informed_of_each
      (each_rederiveCslbTrades trivial trivial (fun _ => trivial) fun _ => trivial))
  | runOnce config => exact hanswer (informed_runOnce hJ)
  | recomputeAll page pages => exact hanswer (informed_recomputeAll hJ)
  | openClaim contractorId userId method evidence =>
    exact hanswer (Action.informed_transaction trivial trivial
      (Prog.Informed.failAt (informed_openRow hJ) fault))
  | withdrawClaim id userId =>
    exact hanswer (Prog.informed_of_each (each_inTransaction trivial trivial
      (each_withdrawRow (fun _ => trivial) fun _ => trivial)))
  | decideClaim id approve adminId note =>
    refine hanswer (Action.informed_andThen (Action.informed_transaction trivial trivial
      (Prog.Informed.failAt (informed_decideRow hJ) fault)) fun outcome =>
        Prog.informed_of_each (Action.each_failAt ?_ later))
    intro decided
    cases decided <;> trivial
  | updateProfile caller id body => exact hanswer (informed_updateProfile hJ)
  | setPhoto caller id key bytes => exact hanswer (Prog.informed_of_each (each_setPhoto fun _ => trivial))
  | removePhoto caller id => exact hanswer (Prog.informed_of_each (each_removePhoto fun _ => trivial))
  | putServiceAreas caller id inputs =>
    exact hanswer (Prog.informed_of_each (each_putServiceAreas trivial trivial (fun _ => trivial)
      (fun _ => trivial) fun _ => trivial))
  | reportTrade contractorId tradeId held =>
    refine hanswer (p := reportTrade contractorId tradeId held)
      (Prog.informed_of_each ⟨?_, fun _ => trivial⟩)
    cases held <;> trivial

end Programs

/-! ### Whole runs -/

/-- An address of the listing, as some process sees it, is at the point. -/
def Db.Locates (atlas : Atlas) (k : Uuid) (p : Point) (s : Db) : Prop :=
  ∃ i address, s.addressFor i k = some address ∧ atlas.locate address = some p

/-- **A badge is earned**: process `i` has seen the listing claimed, and then its licence active, and
has dated the badge on a day on which that licence had not expired. -/
structure Earned (i : ℕ) (k : Uuid) (verifiedAt : Option Instant) (s₁ s₂ s₃ : Db) : Prop where
  claimed : ∃ l, s₁.contractors.row i k = some l ∧ l.isClaimed = true
  active : ∃ l, (s₂.contractors.row i k).bind (s₂.licenseOf i) = some l ∧ l.status = .active ∧
    l.isExpired (today s₃.clock) = false
  dated : verifiedAt = some s₃.clock

section Runs

variable {s₀ : Db} {c : Config ℕ Db Call (Except AppError Response) Query} {l : Contractor}

/-- The run from `s₀` to `c` passes through `t`, and then through `s`. -/
abbrev Sees (atlas : Atlas) (s₀ : Db) (c : Config ℕ Db Call (Except AppError Response) Query)
    (t s : Db) : Prop :=
  Onward (registry atlas) anyQuery (.initial s₀) c t s

/-- **Where points and badges come from in the run from `s₀` to `c`.** -/
def runOrigins (atlas : Atlas) (s₀ : Db) (c : Config ℕ Db Call (Except AppError Response) Query) :
    Origins where
  point k p := (∃ l, (s₀.contractors.slot k).committed = some l ∧ l.IsAt p) ∨
    ∃ s, Passed (registry atlas) anyQuery (.initial s₀) c s ∧ s.Locates atlas k p
  badge k v := v.1 = true →
    (∃ l, (s₀.contractors.slot k).committed = some l ∧ Facet.badge.read l = v) ∨
      ∃ i s₁ s₂ s₃, Sees atlas s₀ c s₁ s₂ ∧ Sees atlas s₀ c s₂ s₃ ∧ Earned i k v.2.1 s₁ s₂ s₃
  blank _ h := absurd h Bool.false_ne_true

/-- What requests look at in a run. -/
theorem grounds_run : Grounds atlas (runOrigins atlas s₀ c)
    (told (registry atlas) anyQuery (.initial s₀) c
      (fun s => s.contractors.Holds (Contractor.From (runOrigins atlas s₀ c))) i) where
  rows h := h.1
  located h haddress hlocate := Or.inr ⟨_, h.2.passed, _, _, haddress, hlocate⟩
  decided := by
    intro t s₁ s₂ s₃ i k h₁ h₂ h₃ hverified
    obtain ⟨hclaimed, license, hlicense, hactive, hexpired⟩ := of_verified hverified
    refine Or.inr ⟨i, s₁, s₂, s₃, h₂.2, h₃.2, ⟨?_, ⟨license, hlicense, hactive, hexpired⟩, ?_⟩⟩
    · cases hrow : s₁.contractors.row i k with
      | none =>
        rw [hrow] at hclaimed
        cases hclaimed
      | some l =>
        rw [hrow] at hclaimed
        exact ⟨l, rfl, hclaimed⟩
    · exact if_pos hverified

/-- **Every listing has its points and its badge from the run.** -/
theorem from_of_reachable (hrest : s₀.AtRest)
    (h : Reachable (registry atlas) anyQuery (.initial s₀) c) :
    c.db.contractors.Holds (Contractor.From (runOrigins atlas s₀ c)) := by
  refine invariant_informed (φ := Query.From (runOrigins atlas s₀ c))
    (fun i call _ => informed_serve grounds_run call) trivial (fun q i s b s' hs hq hrun => ?_)
    (fun s n hs => hs) (fun k l hl => ?_) h
  · refine (Query.contractors_effect hrun).holds hs fun k l hwrites => ?_
    exact from_of_writes hq hwrites fun l₀ hl₀ => hs.row hl₀
  · rcases hl with hl | ⟨j, hlock⟩
    · exact ⟨fun p hp => Or.inl ⟨l, hl, hp⟩, fun _ => Or.inl ⟨l, hl, rfl⟩⟩
    · rw [hrest k] at hlock
      cases hlock

/-- **No point is made up**: in every interleaving, a point that a listing is at exactly, for itself or
in public, is what the geocoder finds for an address that this very listing has had in the run,
unless the listing was there from the start. -/
theorem point_located (hrest : s₀.AtRest)
    (h : Reachable (registry atlas) anyQuery (.initial s₀) c)
    (hl : (c.db.contractors.slot k).committed = some l) (hp : l.IsAt p) :
    (∃ l₀, (s₀.contractors.slot k).committed = some l₀ ∧ l₀.IsAt p) ∨
      ∃ s, Passed (registry atlas) anyQuery (.initial s₀) c s ∧ s.Locates atlas k p :=
  ((from_of_reachable hrest h).committed hl).point p hp

/-- **Every badge is earned**: in every interleaving, a listing that is verified was seen claimed,
and then its licence active and not expired on the day of the badge, by whoever gave it the badge,
unless it has had the same one from the start. -/
theorem badge_earned (hrest : s₀.AtRest)
    (h : Reachable (registry atlas) anyQuery (.initial s₀) c)
    (hl : (c.db.contractors.slot k).committed = some l) (hverified : l.verified = true) :
    (∃ l₀, (s₀.contractors.slot k).committed = some l₀ ∧
        Facet.badge.read l₀ = Facet.badge.read l) ∨
      ∃ i s₁ s₂ s₃, Sees atlas s₀ c s₁ s₂ ∧ Sees atlas s₀ c s₂ s₃ ∧
        Earned i k l.verifiedAt s₁ s₂ s₃ :=
  ((from_of_reachable hrest h).committed hl).badge hverified

end Runs

/-- The point that the worker finds is the one of the address that the owner has given. -/
theorem point_located_whileWaiting :
    ∃ c l p, Reachable (registry .plain) anyQuery (.initial .ungeocoded) c ∧
      (c.db.contractors.slot 1).committed = some l ∧ l.precisePoint = some p ∧
        ∃ s, Passed (registry .plain) anyQuery (.initial .ungeocoded) c s ∧ s.Locates .plain 1 p := by
  obtain ⟨c, hc, hP⟩ := exists_of_exec (registry .plain)
    (.arrive 0 ⟨.runOnce {}, none, none, none⟩ :: List.replicate 15 (.run 0)) (.initial .ungeocoded)
    (fun c => (c.db.contractors.slot 1).committed.any fun l => l.precisePoint.isSome)
    (by decide +kernel)
  obtain ⟨l, hl, hsome⟩ := (Option.any_eq_true _ _).mp hP
  obtain ⟨p, hp⟩ := Option.isSome_iff_exists.mp hsome
  refine ⟨c, l, p, hc, hl, hp, ?_⟩
  rcases point_located Db.ungeocoded_atRest hc hl (Or.inl hp) with ⟨l₀, hl₀, hat⟩ | hs
  · -- nothing is known of the listing at the start
    obtain ⟨hmem, -⟩ := Table.mem_of_slot_ofList hl₀
    obtain rfl := List.mem_singleton.mp hmem
    rcases hat with hat | hat
    · cases hat
    · have hsource : Directory.PublicPointSource.zipCentroid = .exact :=
        congrArg Publication.publicPointSource hat
      cases hsource
  · exact hs

/-- Listing `1` of account `7`, whose licence is active, before its badge is computed. -/
def Db.unchecked : Db where
  licenses := .ofList (fun _ => 1)
    [.new { licenseNo := "123456".toList
            businessName := "Birch".toList
            status := .active
            statusRaw := "CLEAR".toList } rfl 0 0] (by decide)
  contractors := .ofList (fun _ => 1)
    [(SourceFacts.row ⟨1, "Birch".toList, "birch".toList, none, none⟩).attachClaimant 7 0] (by decide)

/-- The nightly check gives the badge. -/
theorem badge_earned_unchecked :
    ∃ c l, Reachable (registry .plain) anyQuery (.initial .unchecked) c ∧
      (c.db.contractors.slot 1).committed = some l ∧ l.verified = true ∧
        ∃ i s₁ s₂ s₃, Sees .plain .unchecked c s₁ s₂ ∧ Sees .plain .unchecked c s₂ s₃ ∧
          Earned i 1 l.verifiedAt s₁ s₂ s₃ := by
  obtain ⟨c, hc, hP⟩ := exists_of_exec (registry .plain)
    (.arrive 0 ⟨.recomputeAll 10 10, none, none, none⟩ :: List.replicate 6 (.run 0))
    (.initial .unchecked)
    (fun c => (c.db.contractors.slot 1).committed.any Contractor.verified) (by decide +kernel)
  obtain ⟨l, hl, hverified⟩ := (Option.any_eq_true _ _).mp hP
  refine ⟨c, l, hc, hl, hverified, ?_⟩
  rcases badge_earned (fun _ => rfl) hc hl hverified with ⟨l₀, hl₀, hsame⟩ | h
  · obtain ⟨hmem, -⟩ := Table.mem_of_slot_ofList hl₀
    obtain rfl := List.mem_singleton.mp hmem
    have hunverified : false = l.verified := congrArg Prod.fst hsame
    exact absurd (hunverified.trans hverified) Bool.false_ne_true
  · exact h

end Marketplace.Registry
