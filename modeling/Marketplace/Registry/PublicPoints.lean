import Marketplace.Registry.Publishing
import Marketplace.Registry.Recheck

/-!
# Where listings appear, in every interleaving

Every request of the registry leaves the listings that it has written published as their columns
say, before it commits (`Marketplace.Registry.safe_serve_places`). A listing that protects its
address is therefore never at its exact point, whoever was racing with whom, and no point that a
geocoder gave is lost.
-/

namespace Marketplace.Registry

open ReadCommitted
open Search (Point)
open Directory (PublicPointSource Region)

variable {atlas : Atlas} {P : Contractor → Prop} {i : ℕ} {id : Uuid}

/-! ### The requests -/

section Requests

variable (hP : Republishes atlas P)
include hP

/-- What a program that leaves where listings are keeps. -/
theorem safe_leaves {α : Type} {p : Registering α} (h : p.run.Each fun {_} q => q.leavesPlace) :
    Safe (fun _ => idle) p.run (idle : Assertion (placesContract atlas P) i) :=
  Safe.keep (h.mono fun _ hq => idle_keeps hP hq)

/-- **A transaction** whose process is at work on nothing when it commits. -/
theorem safe_places {α : Type} {body : Registering α} {R : Assertion (placesContract atlas P) i}
    (h : Safe (Assertion.onOk (fun _ => idle) fun _ => .any) body.run R) :
    Safe (fun _ => idle) (Action.transaction .commit .rollback body : Registering α).run R := by
  refine Safe.transaction _ h (fun _ s _ s' hs hidle hC hq => ?_) fun _ s b s' hs _ _ hq => ?_
  · exact idle_keeps hP (q := .commit) trivial s _ s' hs hidle hC hq
  · obtain ⟨hs', hg⟩ := (placesContract atlas P).rollback hs trivial hq
    have hrun : s.rollback i = s' := congrArg Prod.snd (Option.some.inj hq)
    exact ⟨hs', hg, hrun ▸ Table.settled_rollback⟩

theorem safe_importRecord {runId : Uuid} {record : LicenseRecord} {counts : RunCounts} :
    Safe (Assertion.onOk (fun _ => idle) fun _ => .any) (importRecord atlas runId record counts).run
      (idle : Assertion (placesContract atlas P) i) := by
  refine Safe.keep_andThen (each_upsert ⟨fun _ => idle_keeps hP trivial,
    fun _ _ _ => idle_keeps hP trivial⟩) (fun _ _ _ _ => trivial) fun stored => ?_
  show Safe _ (if stored.outcome = .unchanged then _ else _ : Registering RunCounts).run _
  split
  · exact fun s _ h => h
  · exact Safe.andThen _ (safe_project hP) fun _ s _ h => h

theorem safe_importEach {runId : Uuid} {batch : List LicenseRecord} {counts : RunCounts} :
    Safe (Assertion.onOk (fun _ => idle) fun _ => .any) (importEach atlas runId batch counts).run
      (idle : Assertion (placesContract atlas P) i) := by
  induction batch generalizing counts with
  | nil => exact fun s _ h => h
  | cons record batch ih => exact Safe.andThen _ (safe_importRecord hP) fun _ => ih

theorem safe_flush {runId : Uuid} {dryRun : Bool} {batch : List LicenseRecord}
    {counts : RunCounts} : Safe (fun _ => idle) (flush atlas runId dryRun batch counts).run
      (idle : Assertion (placesContract atlas P) i) := by
  rw [flush]
  split
  · exact fun s _ h => h
  · exact safe_places hP (safe_importEach hP)

omit hP in
/-- One program after another, both of which leave the process at work on nothing. -/
theorem safe_after {α β : Type} {p : Registering α} {k : α → Registering β}
    (hp : Safe (fun _ => idle) p.run (idle : Assertion (placesContract atlas P) i))
    (hk : ∀ a, Safe (fun _ => idle) (k a).run (idle : Assertion (placesContract atlas P) i)) :
    Safe (fun _ => idle) (p >>= k).run (idle : Assertion (placesContract atlas P) i) := by
  refine Safe.andThen (fun _ => idle) (hp.conseq (fun _ _ h => h) fun a s _ h => ?_) hk
  cases a <;> exact h

theorem safe_importRows {runId : Uuid} {options : ImportOptions} {columns : ColumnMap}
    {rows : List (Option (List Text))} {batch : List LicenseRecord} {counts : RunCounts} :
    Safe (fun _ => idle) (importRows atlas runId options columns rows batch counts).run
      (idle : Assertion (placesContract atlas P) i) := by
  induction rows generalizing batch counts with
  | nil =>
    rw [importRows]
    split
    · exact fun s _ h => h
    · exact safe_flush hP
  | cons row rows ih =>
    cases row with
    | none => exact ih
    | some row =>
      rw [importRows]
      split
      · exact ih
      split
      split
      · exact safe_after (safe_flush hP) fun _ => ih
      · exact ih

theorem safe_runImport {options : ImportOptions} :
    Safe (fun _ => idle) (runImport atlas options).run
      (idle : Assertion (placesContract atlas P) i) := by
  rw [runImport]
  split
  · exact fun s _ h => h
  split
  · exact fun s _ h => h
  refine safe_after (safe_leaves hP (each_beginRun fun _ => trivial)) fun runId => ?_
  refine safe_after (Safe.bind (safe_importRows hP) fun _ s _ h => h) fun outcome => ?_
  exact safe_leaves hP (each_settleRun fun _ => trivial)

theorem safe_applyGeocode {p : Point} :
    Safe (Assertion.onOk (fun _ => idle) fun _ => .any) (applyGeocode atlas id p).run
      (idle : Assertion (placesContract atlas P) i) := by
  refine Safe.look_andThen (fun o => o.elim idle fun _ => idle.and (seen id)) (fun s _ h => ?_)
    fun o => ?_
  · cases hrow : s.contractors.row i id with
    | none => exact h
    | some c => exact ⟨h, c, hrow⟩
  cases o with
  | none => exact fun s _ h => h
  | some inputs =>
    exact Safe.andThen _ (safe_update_open trivial) fun _ => safe_republish hP

theorem safe_succeed {job : Job} {p : Point} :
    Safe (fun _ => idle) (succeed atlas job p).run
      (idle : Assertion (placesContract atlas P) i) := by
  refine safe_places hP (Safe.andThen _ (safe_applyGeocode hP) fun source => ?_)
  exact Safe.query_keep (idle_keeps hP trivial) fun _ s _ h => h

theorem safe_attempt {config : WorkerConfig} {job : Job} {stats : Stats} :
    Safe (fun _ => idle) (attempt atlas config job stats).run
      (idle : Assertion (placesContract atlas P) i) := by
  refine Safe.look_keep fun address => ?_
  cases address with
  | none => exact Safe.query_keep (idle_keeps hP trivial) fun _ s _ h => h
  | some address =>
    refine Safe.look_keep fun located => ?_
    cases located with
    | found p => exact safe_after (safe_succeed hP) fun _ s _ h => h
    | notFound => exact Safe.query_keep (idle_keeps hP trivial) fun _ s _ h => h
    | error message =>
      refine safe_after (safe_leaves hP fun now => ⟨trivial, fun status => ?_⟩) fun _ s _ h => h
      rcases status with _ | _ | status <;> trivial

theorem safe_runOnce {config : WorkerConfig} :
    Safe (fun _ => idle) (runOnce atlas config).run
      (idle : Assertion (placesContract atlas P) i) := by
  have hqueue : AllowsQueue fun {_} q => q.leavesPlace := ⟨trivial, trivial, fun _ _ => trivial⟩
  refine safe_after (safe_leaves hP (each_requeueStalled hqueue)) fun requeued =>
    safe_after (safe_leaves hP (each_claim hqueue)) fun jobs => ?_
  generalize ({ requeued := requeued, claimed := jobs.length } : Stats) = stats
  induction jobs generalizing stats with
  | nil => exact fun s _ h => h
  | cons job jobs ih => exact safe_after (safe_attempt hP) ih

/-- **A profile edit leaves the listing where it then says.** -/
theorem safe_profileRow {update : ProfileUpdate} :
    Safe (Assertion.onOk (fun _ => idle) fun _ => .any) (profileRow atlas id update).run
      (idle.and (seen id) : Assertion (placesContract atlas P) i) := by
  have hrelocate : Safe (Assertion.onOk (fun _ => idle) fun _ => .any)
      (if update.ownerAddress = .unchanged then pure ()
        else relocateAfterAddressChange atlas id : Registering Unit).run
      (idle : Assertion (placesContract atlas P) i) := by
    refine (safe_leaves hP ?_).conseq (fun _ _ h => h) fun a s _ h => ?_
    · split
      · trivial
      · exact each_relocateAfterAddressChange fun _ _ _ => trivial
    · cases a with
      | ok _ => exact h
      | error e => trivial
  cases hvisibility : update.addressVisibility with
  | none =>
    have hleaves : (Query.listing .tx (.update id (.profile update))).leavesPlace := hvisibility
    refine Safe.keep_andThen (P := idle) (each_updateListing (idle_keeps hP hleaves))
      (fun _ _ _ _ => trivial) (fun _ => ?_) |>.mono fun _ _ h => h.1
    rw [followEdit, hvisibility]
    exact Safe.andThen (p := pure ()) (fun _ => idle) (fun s _ h => h) fun _ => hrelocate
  | some visibility =>
    refine Safe.andThen _ (safe_update_open trivial) fun _ => ?_
    rw [followEdit, hvisibility]
    refine Safe.andThen (p := reapply atlas id) (fun _ => idle) ?_ fun _ => hrelocate
    exact Safe.andThen _ (safe_republish hP) fun _ s _ h => h

theorem safe_updateProfile {fault later : Option ℕ} {caller : Uuid} {body : UpdateProfileRequest} :
    Safe (fun _ => .any) (updateProfile atlas fault later caller id body).run
      (idle : Assertion (placesContract atlas P) i) := by
  rw [updateProfile]
  split
  · exact fun s _ _ => trivial
  refine Safe.look_andThen (fun o => idle.and (Assertion.onSome seen o)) (fun s _ h => ?_)
    fun owner => ?_
  · refine ⟨h, ?_⟩
    cases howned : s.ownedBy i caller with
    | none => trivial
    | some k =>
      obtain ⟨c, hrow, -⟩ := Table.mem_scan.mp (List.mem_of_head? howned)
      exact ⟨c, hrow⟩
  show Safe _ (if owner = some id then _ else throw .forbidden : Registering Contractor).run _
  split
  · rename_i howner
    rw [howner]
    split
    · rename_i update hupdate
      have hrow : Safe (fun _ => idle) (inTransaction fault (profileRow atlas id update)).run
          (idle.and (seen id) : Assertion (placesContract atlas P) i) :=
        safe_places hP (Safe.failAt (safe_profileRow hP) fault fun _ _ _ => trivial)
      refine Safe.andThen (fun _ => idle) (hrow.conseq (fun _ _ h => h) fun a s _ h => ?_) fun _ => ?_
      · cases a with
        | ok _ => exact h
        | error e => trivial
      · refine (safe_leaves hP (Action.each_failAt ?_ later)).any_post
        intro stored
        cases stored <;> trivial
    · exact fun s _ _ => trivial
  · exact fun s _ _ => trivial

end Requests

/-! ### Whole runs -/

/-- **Every request leaves the listings that it writes published as their columns say.** -/
theorem safe_serve_places (hP : Republishes atlas P) (call : Call) :
    Safe (fun _ => .any) (serve atlas call).run (idle : Assertion (placesContract atlas P) i) := by
  have hmap {α : Type} {p : Registering α} {f : α → Response}
      (h : Safe (fun _ => .any) p.run (idle : Assertion (placesContract atlas P) i)) :
      Safe (fun _ => .any) (p >>= fun a => pure (f a)).run
        (idle : Assertion (placesContract atlas P) i) :=
    Safe.andThen (fun _ => .any) (h.conseq (fun _ _ h => h) fun a s _ _ => by cases a <;> trivial)
      fun _ s _ _ => trivial
  have hleaves {α : Type} {p : Registering α} {f : α → Response}
      (h : p.run.Each fun {_} q => q.leavesPlace) :
      Safe (fun _ => .any) (p >>= fun a => pure (f a)).run
        (idle : Assertion (placesContract atlas P) i) :=
    hmap (safe_leaves hP h).any_post
  have hbadge : AllowsBadge fun {_} q => q.leavesPlace := ⟨fun _ _ _ _ => trivial⟩
  have hclaim : AllowsClaim fun {_} q => q.leavesPlace :=
    { hbadge with
      insert := fun _ => trivial
      decide := fun _ _ _ _ _ => trivial
      attach := fun _ _ _ => trivial
      grantRole := fun _ _ _ => trivial
      recordCheck := fun _ => trivial
      record := fun _ => trivial }
  obtain ⟨request, requestId, fault, later⟩ := call
  cases request with
  | importFile options => exact hmap (safe_runImport hP).any_post
  | rederive =>
    exact hleaves (each_rederiveCslbTrades trivial trivial (fun _ => trivial) fun _ => trivial)
  | runOnce config => exact hmap (safe_runOnce hP).any_post
  | recomputeAll page pages => exact hleaves (each_recomputeAll trivial trivial hbadge)
  | openClaim contractorId userId method evidence =>
    exact hleaves (each_inTransaction trivial trivial (each_openRow hclaim))
  | withdrawClaim id userId =>
    exact hleaves (each_inTransaction trivial trivial
      (each_withdrawRow (fun _ => trivial) fun _ => trivial))
  | decideClaim id approve adminId note =>
    refine hleaves (Action.each_andThen (each_inTransaction trivial trivial (each_decideRow hclaim))
      fun outcome => Action.each_failAt ?_ later)
    intro decided
    cases decided <;> trivial
  | updateProfile caller id body => exact hmap (safe_updateProfile hP)
  | setPhoto caller id key bytes => exact hleaves (each_setPhoto fun _ => trivial)
  | removePhoto caller id => exact hleaves (each_removePhoto fun _ => trivial)
  | putServiceAreas caller id inputs =>
    exact hleaves (each_putServiceAreas trivial trivial (fun _ => trivial) (fun _ => trivial)
      fun _ => trivial)
  | reportTrade contractorId tradeId held =>
    refine hleaves (p := reportTrade contractorId tradeId held) ⟨?_, fun _ => trivial⟩
    cases held <;> trivial

section Runs

variable {s₀ : Db} {c : Config ℕ Db Call (Except AppError Response) Query}

/-- **What `republish` brings about is so of every published listing**, and its point is the last one
that was found. -/
theorem published_of_reachable (hP : Republishes atlas P) (hrest : s₀.AtRest)
    (hstart : ∀ k l, (s₀.contractors.slot k).committed = some l → P l ∧ l.Kept)
    (h : Reachable (registry atlas) anyQuery (.initial s₀) c) (k : Uuid) (l : Contractor)
    (hl : (c.db.contractors.slot k).committed = some l) : P l ∧ l.Kept := by
  have hinv : PlacesInv P s₀ := by
    refine ⟨Table.ordered_of_unlocked hrest, fun k l hl => ?_, fun k l hl => (hstart k l hl).1⟩
    rcases hl with hc | ⟨j, hlock⟩
    · exact (hstart k l hc).2
    · rw [hrest k] at hlock
      cases hlock
  have hidle : ∀ i, (idle : Assertion (placesContract atlas P) i).holds s₀ :=
    fun _ => Table.settled_of_unlocked hrest
  obtain ⟨hs, -⟩ := (placesContract atlas P).of_reachable
    (fun _ call => safe_serve_places hP call) hinv hidle h
  exact ⟨hs.fits k l hl, hs.kept.committed hl⟩

end Runs

/-! ### One run of `republish` -/

/-- What `republish` answers. -/
def publishedSource (atlas : Atlas) (i : ℕ) (id : Uuid) (db : Db) : PublicPointSource :=
  (db.contractors.row i id).elim .none fun l =>
    (published atlas (l.locationInputs id)).publicPointSource

/-- The database, once what a listing publishes is computed again. -/
def Db.republished (atlas : Atlas) (i : ℕ) (id : Uuid) (db : Db) : Db :=
  (db.contractors.row i id).elim db fun l =>
    { db with
      contractors :=
        db.contractors.put id ((db.contractors.slot id).put .tx i (l.republished atlas id)) }

theorem alone_republish {db : Db} (hfree : (db.contractors.slot id).freeFor i = true) :
    (republish atlas id).run.Alone (registry atlas) i (fun r s =>
      r = .ok (publishedSource atlas i id db) ∧ s = db.republished atlas i id) db := by
  refine Action.alone_look ?_
  rw [publishedSource, Db.republished]
  cases hrow : db.contractors.row i id with
  | none => exact ⟨rfl, rfl⟩
  | some l =>
    have hmodify : db.contractors.modify .tx i id (Table.checking (fun _ => true) fun c =>
        if (Change.location l.precisePoint (published atlas (l.locationInputs id))).checks then
          some ((Change.location l.precisePoint (published atlas (l.locationInputs id))).apply c)
        else none) =
        some (some true,
          db.contractors.put id ((db.contractors.slot id).put .tx i (l.republished atlas id))) := by
      have hadmits : (db.contractors.slot id).admits .tx i = true := hfree
      rw [Table.modify, if_pos hadmits, hrow]
      rfl
    exact Action.alone_query (Option.map_eq_some_iff.mpr ⟨_, hmodify, rfl⟩) ⟨rfl, rfl⟩

theorem republished_of_row {db : Db} {l : Contractor} (hrow : db.contractors.row i id = some l) :
    db.republished atlas i id = { db with
      contractors :=
        db.contractors.put id ((db.contractors.slot id).put .tx i (l.republished atlas id)) } := by
  rw [Db.republished, hrow]
  rfl

/-- The row that `republish` leaves has the point that it had. -/
theorem row_republished {db : Db} {l : Contractor} (hrow : db.contractors.row i id = some l) :
    (db.republished atlas i id).contractors.row i id = some (l.republished atlas id) := by
  rw [republished_of_row hrow]
  exact Table.row_put_self

theorem freeFor_republished {db : Db} (hfree : (db.contractors.slot id).freeFor i = true) :
    ((db.republished atlas i id).contractors.slot id).freeFor i = true := by
  rw [Db.republished]
  cases db.contractors.row i id with
  | none => exact hfree
  | some l =>
    show (((db.contractors.put id _).slot id).freeFor i) = true
    rw [Table.slot_put_self]
    exact Slot.freeFor_iff.mpr fun j v hlock => (Slot.lock_put hlock).1

/-- **Computing again what a listing publishes changes nothing the second time.** -/
theorem republished_republished {db : Db} :
    (db.republished atlas i id).republished atlas i id = db.republished atlas i id ∧
      publishedSource atlas i id (db.republished atlas i id) = publishedSource atlas i id db := by
  cases hrow : db.contractors.row i id with
  | none =>
    have hsame : db.republished atlas i id = db := by rw [Db.republished, hrow]; rfl
    rw [hsame, hsame]
    exact ⟨rfl, rfl⟩
  | some l =>
    have hrow' := @row_republished atlas _ _ _ _ hrow
    refine ⟨?_, by rw [publishedSource, publishedSource, hrow', hrow]; rfl⟩
    rw [republished_of_row hrow', republished_of_row hrow, Table.slot_put_self, Table.put_put]
    rfl

/-! ### Protected addresses -/

/-- **A listing that protects its address is never at its exact point**, in any interleaving; the
point that was found last is never lost, and computing again what a listing publishes keeps that
point, and changes nothing the second time. -/
theorem protected_hidden (atlas : Atlas) {s₀ : Db}
    {c : Config ℕ Db Call (Except AppError Response) Query} (hrest : s₀.AtRest)
    (hstart : ∀ k l, (s₀.contractors.slot k).committed = some l → l.Discreet atlas ∧ l.Kept)
    (h : Reachable (registry atlas) anyQuery (.initial s₀) c) :
    (∀ k l, (c.db.contractors.slot k).committed = some l → l.Discreet atlas ∧ l.Kept) ∧
      ∀ (db : Db) i id, (db.contractors.slot id).freeFor i = true →
        (republish atlas id).run.Alone (registry atlas) i (fun r s => (∃ source, r = .ok source) ∧
          (∀ l, db.contractors.row i id = some l →
            ∃ l', s.contractors.row i id = some l' ∧ l'.precisePoint = l.precisePoint) ∧
          (republish atlas id).run.Alone (registry atlas) i (fun r' s' => r' = r ∧ s' = s) s) db := by
  refine ⟨published_of_reachable republishes_discreet hrest hstart h, fun db i id hfree => ?_⟩
  refine (alone_republish hfree).mono ?_
  rintro _ _ ⟨rfl, rfl⟩
  refine ⟨⟨_, rfl⟩, fun l hrow => ⟨_, row_republished hrow, rfl⟩, ?_⟩
  refine (alone_republish (freeFor_republished hfree)).mono ?_
  rintro _ _ ⟨rfl, rfl⟩
  obtain ⟨hsame, hsource⟩ := @republished_republished atlas i id db
  exact ⟨by rw [hsource], hsame⟩

/-- Listing `1` of account `7`, which appears at the centroid of its ZIP code and waits to be
geocoded. -/
def Db.ungeocoded : Db where
  contractors := .ofList (fun _ => 1)
    [Contractor.republished .plain 1
      { (SourceFacts.row ⟨1, "Acme".toList, "acme".toList, some "90210".toList, some 1⟩).attachClaimant
          7 0 with
        ownerAddress := some ⟨"1 Main St".toList, "Town".toList, "CA".toList, "90210".toList⟩ }]
    (by decide)
  queue := .ofList (fun _ => 3) [.new 1 [] 0] (by decide)

theorem Db.ungeocoded_atRest : Db.ungeocoded.AtRest := fun _ => rfl

theorem Db.ungeocoded_start {P : Contractor → Prop} (hP : Republishes .plain P) (k : Uuid)
    (l : Contractor) (hl : (Db.ungeocoded.contractors.slot k).committed = some l) :
    P l ∧ l.Kept := by
  obtain ⟨hmem, -⟩ := Table.mem_of_slot_ofList hl
  obtain rfl := List.mem_singleton.mp hmem
  exact ⟨hP.republished 1 _, rfl⟩

/-- The owner hides the address. -/
def hides : Call where
  request := .updateProfile 7 1 { addressVisibility := some "protected".toList }

/-- The owner hides the address while the worker, which has been asked where it is, waits for the
answer. -/
theorem protected_hidden_whileWaiting :
    ∃ c l, Reachable (registry .plain) anyQuery (.initial .ungeocoded) c ∧
      (c.db.contractors.slot 1).committed = some l ∧ l.addressVisibility = .protect ∧
        l.precisePoint.isSome = true ∧ l.Discreet .plain ∧ l.Kept := by
  obtain ⟨c, hc, hP⟩ := exists_of_exec (registry .plain)
    (.arrive 0 ⟨.runOnce {}, none, none, none⟩ :: List.replicate 9 (.run 0) ++
      .arrive 1 hides :: List.replicate 6 (.run 1) ++ List.replicate 6 (.run 0))
    (.initial .ungeocoded)
    (fun c => decide ((c.db.contractors.slot 1).committed.map (fun l =>
      (l.addressVisibility, l.precisePoint.isSome)) = some (.protect, true)))
    (by decide +kernel)
  obtain ⟨l, hl, hpair⟩ := Option.map_eq_some_iff.mp (of_decide_eq_true hP)
  obtain ⟨hprotect, hfound⟩ := Prod.mk.inj hpair
  obtain ⟨hdiscreet, hkept⟩ := (protected_hidden .plain Db.ungeocoded_atRest
    (Db.ungeocoded_start republishes_discreet) hc).1 1 l hl
  exact ⟨c, l, hc, hl, hprotect, hfound, hdiscreet, hkept⟩

/-! ### The ZIP code that is shown -/

/-- **The centroid follows the ZIP code that is shown**: a centroid that is published is the one of
that code, and there is no point only when that code has no region. -/
def Contractor.FollowsCode (atlas : Atlas) (l : Contractor) : Prop :=
  (l.publicPointSource = .zipCentroid → ∃ region,
    l.shownPostalCode.bind atlas.findZcta = some region ∧ l.publicPoint = some region.centroid) ∧
  (l.publicPointSource = .none → l.shownPostalCode.bind atlas.findZcta = none)

/-- The centroid of a ZIP code, if there is one. -/
def Atlas.centroid (atlas : Atlas) (code : Option Text) : Option Point :=
  (code.bind atlas.findZcta).map Region.centroid

/-- The listing publishes its address, which has been geocoded. -/
def Contractor.isExact (l : Contractor) : Prop :=
  l.addressVisibility = .publish ∧ l.precisePoint.isSome = true

/-- **A listing that is placed follows the code that is shown** when it is at its exact point, or
that code has the centroid of the one on the licence, and not otherwise. -/
theorem followsCode_iff {l : Contractor} (h : l.Placed atlas) :
    l.FollowsCode atlas ↔
      l.isExact ∨ atlas.centroid l.shownPostalCode = atlas.centroid l.postalCode := by
  have hsource : l.publicPointSource = (published atlas (l.locationInputs 0)).publicPointSource :=
    congrArg Publication.publicPointSource h
  have hpoint : l.publicPoint = (published atlas (l.locationInputs 0)).publicPoint :=
    congrArg Publication.publicPoint h
  rw [Contractor.FollowsCode, hsource, hpoint]
  by_cases hexact : l.isExact
  · obtain ⟨p, hp⟩ := Option.isSome_iff_exists.mp hexact.2
    rw [@published_of_exact _ (l.locationInputs 0) _ hexact.1 hp]
    refine iff_of_true ⟨fun hcentroid => ?_, fun hnone => ?_⟩ (Or.inl hexact)
    · cases hcentroid
    · cases hnone
  · rw [or_iff_right hexact]
    cases hregion : l.postalCode.bind atlas.findZcta with
    | none =>
      rw [@published_of_none _ (l.locationInputs 0) hexact hregion, Atlas.centroid,
        Atlas.centroid, hregion]
      cases l.shownPostalCode.bind atlas.findZcta <;> simp
    | some region =>
      rw [@published_of_region _ (l.locationInputs 0) _ hexact hregion, Atlas.centroid,
        Atlas.centroid, hregion]
      cases l.shownPostalCode.bind atlas.findZcta <;> simp [eq_comm]

/-- **The centroid follows the ZIP code that is shown**, in every state that is reached, for exactly
the listings that are at their exact point, or show a code with the centroid of the one on the
licence. -/
theorem centroid_follows_iff (atlas : Atlas) {s₀ : Db}
    {c : Config ℕ Db Call (Except AppError Response) Query} (hrest : s₀.AtRest)
    (hstart : ∀ k l, (s₀.contractors.slot k).committed = some l → l.Placed atlas ∧ l.Kept)
    (h : Reachable (registry atlas) anyQuery (.initial s₀) c) (k : Uuid) (l : Contractor)
    (hl : (c.db.contractors.slot k).committed = some l) :
    l.FollowsCode atlas ↔
      l.isExact ∨ atlas.centroid l.shownPostalCode = atlas.centroid l.postalCode :=
  followsCode_iff (published_of_reachable republishes_placed hrest hstart h k l hl).1

/-- The owner gives an address in another ZIP code. -/
def moves : Call where
  request := .updateProfile 7 1
    { ownerAddress :=
        some (some ⟨"2 Main St".toList, "Ville".toList, "NY".toList, "10001".toList⟩) }

/-- The owner hides an address in the ZIP code of the licence. -/
theorem centroid_follows_iff_hidden :
    ∃ c l, Reachable (registry .plain) anyQuery (.initial .ungeocoded) c ∧
      (c.db.contractors.slot 1).committed = some l ∧ l.addressVisibility = .protect ∧
        l.FollowsCode .plain := by
  obtain ⟨c, hc, hP⟩ := exists_of_exec (registry .plain)
    (.arrive 1 hides :: List.replicate 6 (.run 1)) (.initial .ungeocoded)
    (fun c => decide ((c.db.contractors.slot 1).committed.map (fun l =>
      (l.addressVisibility, l.shownPostalCode, l.postalCode)) =
        some (.protect, some "90210".toList, some "90210".toList)))
    (by decide +kernel)
  obtain ⟨l, hl, htriple⟩ := Option.map_eq_some_iff.mp (of_decide_eq_true hP)
  obtain ⟨hprotect, hcodes⟩ := Prod.mk.inj htriple
  obtain ⟨hshown, hcode⟩ := Prod.mk.inj hcodes
  refine ⟨c, l, hc, hl, hprotect, (centroid_follows_iff .plain Db.ungeocoded_atRest
    (Db.ungeocoded_start republishes_placed) hc 1 l hl).mpr (Or.inr ?_)⟩
  rw [hshown, hcode]

/-- **An owner who moves is left at the centroid of the licence**: the listing shows a ZIP code
without a region, and is published at the centroid of another one. -/
theorem not_centroid_follows :
    ¬ ∀ c k l, Reachable (registry .plain) anyQuery (.initial .ungeocoded) c →
      (c.db.contractors.slot k).committed = some l → l.FollowsCode .plain := by
  intro hall
  obtain ⟨c, hc, hP⟩ := exists_of_exec (registry .plain)
    (.arrive 1 moves :: List.replicate 7 (.run 1)) (.initial .ungeocoded)
    (fun c => decide ((c.db.contractors.slot 1).committed.map (fun l =>
      (l.publicPointSource, l.shownPostalCode.bind Atlas.plain.findZcta)) =
        some (.zipCentroid, none)))
    (by decide +kernel)
  obtain ⟨l, hl, hpair⟩ := Option.map_eq_some_iff.mp (of_decide_eq_true hP)
  obtain ⟨hsource, hnone⟩ := Prod.mk.inj hpair
  obtain ⟨region, hregion, -⟩ := (hall c 1 l hc hl).1 hsource
  rw [hnone] at hregion
  cases hregion

end Marketplace.Registry
