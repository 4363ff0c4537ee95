import Marketplace.Registry.Contents

/-!
# Every request leaves the database quiet

Every program of the registry is a sequence of statements that stand on their own and of
transactions, which it ends whatever happens in them (`Marketplace.Registry.closes_serve`). So a
request that is served to its end leaves nothing held (`Marketplace.Registry.quiet_of_runs`), and
keeps whatever all its queries keep, of what its process sees and of what is published
(`Marketplace.Registry.keeps_of_runs`).
-/

namespace Marketplace.Registry

open ReadCommitted

variable {atlas : Atlas} {α : Type} {C : Proviso ℕ Db Query}

/-! ### Which transactions a request ends -/

/-- The query is one of a transaction. -/
def Query.isTx {β : Type} (q : Query β) : Prop := q.mode = some .tx

section Bodies

theorem allowsBadge_tx : AllowsBadge Query.isTx := ⟨fun _ _ _ _ => rfl⟩

theorem allowsLocation_tx : AllowsLocation Query.isTx := ⟨fun _ _ _ => rfl⟩

theorem allowsProject_tx : AllowsProject Query.isTx where
  toAllowsLocation := allowsLocation_tx
  toAllowsBadge := allowsBadge_tx
  toAllowsTrades := ⟨fun _ _ => rfl, fun _ => rfl⟩
  insert _ := rfl
  displayName _ _ := rfl
  postalCode _ _ _ := rfl
  enqueue _ _ _ := rfl

theorem allowsLicenses_tx : AllowsLicenses Query.isTx := ⟨fun _ => rfl, fun _ _ _ => rfl⟩

theorem allowsClaim_tx : AllowsClaim Query.isTx where
  toAllowsBadge := allowsBadge_tx
  insert _ := rfl
  decide _ _ _ _ _ := rfl
  attach _ _ _ := rfl
  grantRole _ _ _ := rfl
  recordCheck _ := rfl
  record _ := rfl

end Bodies

/-- The program ends every transaction it has begun. -/
abbrev Tidies (p : Registering α) : Prop := p.run.Closes Query.mode false

theorem tidies_transaction {body : Registering α} (h : body.run.Each Query.isTx) :
    Tidies (.transaction .commit .rollback body) :=
  Action.closes_transaction rfl rfl h

theorem tidies_inTransaction {fault : Option ℕ} {body : Registering α}
    (h : body.run.Each Query.isTx) : Tidies (inTransaction fault body) :=
  tidies_transaction (Action.each_failAt h fault)

theorem tidies_recomputeAll {page pages : ℕ} {after : Option Uuid} {processed : ℕ} :
    Tidies (recomputeAll atlas page pages after processed) := by
  induction pages generalizing after processed with
  | zero => exact rfl
  | succ pages ih =>
    intro ids
    show Tidies (if ids.isEmpty then pure processed else _ : Registering ℕ)
    split
    · exact rfl
    · exact Action.closes_andThen (tidies_transaction (each_recomputeEach allowsBadge_tx))
        fun _ => ih

theorem tidies_flush {runId : Uuid} {dryRun : Bool} {batch : List LicenseRecord}
    {counts : RunCounts} : Tidies (flush atlas runId dryRun batch counts) := by
  rw [Tidies, flush]
  split
  · exact rfl
  · refine tidies_transaction ?_
    -- the body is put together record by record
    induction batch generalizing counts with
    | nil => trivial
    | cons record batch ih =>
      refine Action.each_andThen ?_ fun _ => ih
      refine Action.each_andThen (each_upsert allowsLicenses_tx) fun stored => ?_
      show (if stored.outcome = .unchanged then _ else _ : Registering RunCounts).run.Each _
      split
      · trivial
      · exact Action.each_andThen (each_project allowsProject_tx) fun _ => trivial

theorem tidies_importRows {runId : Uuid} {options : ImportOptions} {columns : ColumnMap}
    {rows : List (Option (List Text))} {batch : List LicenseRecord} {counts : RunCounts} :
    Tidies (importRows atlas runId options columns rows batch counts) := by
  induction rows generalizing batch counts with
  | nil =>
    rw [Tidies, importRows]
    split
    · exact rfl
    · exact tidies_flush
  | cons row rows ih =>
    cases row with
    | none => exact ih
    | some row =>
      rw [Tidies, importRows]
      split
      · exact ih
      split
      split
      · exact Action.closes_andThen tidies_flush fun _ => ih
      · exact ih

/-- Everything is issued on its own. -/
theorem tidies_of_auto {p : Registering α} (h : p.run.Each fun q => q.mode = some .auto) :
    Tidies p :=
  Prog.closes_of_each h

theorem tidies_runImport {options : ImportOptions} : Tidies (runImport atlas options) := by
  rw [Tidies, runImport]
  split
  · exact rfl
  split
  · exact rfl
  exact Action.closes_andThen (tidies_of_auto (each_beginRun fun _ => rfl)) fun runId =>
    Action.closes_andThen (Action.closes_ofProg tidies_importRows) fun _ =>
      tidies_of_auto (each_settleRun fun _ => rfl)

theorem tidies_rederiveCslbTrades : Tidies (rederiveCslbTrades atlas) := by
  refine Action.closes_andThen (tidies_transaction fun derived => ?_) fun added =>
    Action.closes_andThen (tidies_transaction fun stale => ?_) fun _ => rfl
  · exact Action.each_ofProg (Prog.each_countEach fun key => ⟨rfl, fun _ => trivial⟩)
  · exact Action.each_ofProg (Prog.each_countEach fun key => ⟨rfl, fun _ => trivial⟩)

theorem tidies_attempt {config : WorkerConfig} {job : Job} {stats : Stats} :
    Tidies (attempt atlas config job stats) := by
  intro address
  cases address with
  | none => exact ⟨fun _ => rfl, fun _ => rfl⟩
  | some address =>
    intro located
    cases located with
    | found p =>
      refine Action.closes_andThen (tidies_transaction ?_) fun _ => rfl
      refine Action.each_andThen (fun inputs => ?_) fun _ => ⟨rfl, fun _ => trivial⟩
      cases inputs with
      | none => trivial
      | some inputs =>
        exact Action.each_andThen (each_updateListing rfl) fun _ => each_republish allowsLocation_tx
    | notFound => exact ⟨fun _ => rfl, fun _ => rfl⟩
    | error message =>
      refine Action.closes_andThen (fun now => ⟨fun _ => rfl, fun status => ?_⟩) fun _ => rfl
      rcases status with _ | _ | status <;> exact rfl

theorem tidies_runOnce {config : WorkerConfig} : Tidies (runOnce atlas config) := by
  refine Action.closes_andThen (tidies_transaction fun now stalled => ?_) fun requeued =>
    Action.closes_andThen (tidies_transaction fun now due => ?_) fun jobs => ?_
  · exact Action.each_ofProg (Prog.each_countEach fun k => ⟨rfl, fun _ => trivial⟩)
  · refine Action.each_ofProg (Prog.each_takeEach (fun k => ?_) _ _)
    exact ⟨rfl, fun _ => trivial⟩
  generalize ({ requeued := requeued, claimed := jobs.length } : Stats) = stats
  induction jobs generalizing stats with
  | nil => exact rfl
  | cons job jobs ih => exact Action.closes_andThen tidies_attempt ih

theorem tidies_updateProfile {fault later : Option ℕ} {caller id : Uuid}
    {body : UpdateProfileRequest} : Tidies (updateProfile atlas fault later caller id body) := by
  rw [Tidies, updateProfile]
  split
  · exact rfl
  intro owner
  show Tidies (if owner = some id then _ else throw .forbidden : Registering Contractor)
  split
  · split
    · refine Action.closes_andThen (tidies_inTransaction ?_) fun _ =>
        tidies_of_auto (Action.each_failAt ?_ later)
      · exact Action.each_andThen (each_updateListing rfl) fun _ =>
          each_followEdit allowsLocation_tx fun _ _ _ => rfl
      · intro stored
        cases stored <;> trivial
    · exact rfl
  · exact rfl

theorem tidies_putServiceAreas {caller id : Uuid} {inputs : List ServiceAreaInput} :
    Tidies (putServiceAreas atlas caller id inputs) := by
  rw [Tidies, putServiceAreas]
  split
  · exact rfl
  intro owned
  show Tidies (if owned = some id then _ else throw .forbidden : Registering (List Text))
  split
  · refine Action.closes_andThen (tidies_transaction fun old => ?_) fun _ =>
      Action.closes_andThen (tidies_of_auto (each_updateListing rfl)) fun _ =>
        tidies_of_auto (each_addAreas fun _ => rfl)
    exact Action.each_ofProg (Prog.each_countEach fun key => ⟨rfl, fun _ => trivial⟩)
  · exact rfl

/-- **Every request ends the transactions it has begun.** -/
theorem closes_serve (call : Call) : (serve atlas call).run.Closes Query.mode false := by
  rw [serve]
  split
  · exact Action.closes_andThen tidies_runImport fun _ => rfl
  · exact Action.closes_andThen tidies_rederiveCslbTrades fun _ => rfl
  · exact Action.closes_andThen tidies_runOnce fun _ => rfl
  · exact Action.closes_andThen tidies_recomputeAll fun _ => rfl
  · exact Action.closes_andThen (tidies_inTransaction (each_openRow allowsClaim_tx)) fun _ => rfl
  · exact Action.closes_andThen
      (tidies_inTransaction (each_withdrawRow (fun _ => rfl) fun _ => rfl)) fun _ => rfl
  · refine Action.closes_andThen ?_ fun _ => rfl
    refine Action.closes_andThen (tidies_inTransaction (each_decideRow allowsClaim_tx)) fun _ =>
      tidies_of_auto (Action.each_failAt ?_ _)
    intro decided
    cases decided <;> trivial
  · exact Action.closes_andThen tidies_updateProfile fun _ => rfl
  · exact Action.closes_andThen (tidies_of_auto (each_setPhoto fun _ => rfl)) fun _ => rfl
  · exact Action.closes_andThen (tidies_of_auto (each_removePhoto fun _ => rfl)) fun _ => rfl
  · exact Action.closes_andThen tidies_putServiceAreas fun _ => rfl
  · exact Action.closes_andThen ⟨fun _ => rfl, fun _ => rfl⟩ fun _ => rfl

/-! ### What a request keeps -/

section Keeps

variable {i : ℕ} {s s' : Db} {p : Registering α} {r : Except AppError α}
  {φ : {β : Type} → Query β → Prop}

/-- What a query of process `i` does not put in its own way. -/
theorem admits_of_run {β : Type} {q : Query β} {b : β} {isOpen : Bool}
    (hauto : q.mode = some .auto → isOpen = false) (hq : q.run atlas i s = some (b, s'))
    (h : s.Admits (if isOpen then .tx else .auto) i) :
    s'.Admits (if decide (q.mode = some .tx) then .tx else .auto) i := by
  have htx : s.Admits .tx i := by
    cases isOpen with
    | true => exact h
    | false => exact h.quiet.admits
  cases hm : q.mode with
  | none =>
    cases q with
    | commit =>
      cases hq
      exact htx.commit.admits
    | rollback =>
      cases hq
      exact htx.rollback.admits
    | license | addVersion | importRun | listing | trade | area | job | claim | grantRole
    | recordCheck | record => cases hm
  | some m =>
    cases m with
    | tx => exact (Query.places hq hm).admits htx
    | auto =>
      cases hauto hm
      exact (Query.places hq hm).admits h

/-- **What every query keeps, of what its process sees and of what is published**, a program that
ends its transactions keeps, and it leaves the database quiet. -/
theorem keeps_of_runs (hrun : p.run.Runs (registry atlas) C i s r s') (hclose : Tidies p)
    (heach : p.run.Each φ) (I : Contents → Prop)
    (hstep : ∀ {β : Type} (q : Query β) s b s', φ q → C i q s → q.run atlas i s = some (b, s') →
      q.mode ≠ none → I (s.seen i) → I (s'.seen i))
    (hquiet : s.Quiet) (hI : I s.published) : s'.Quiet ∧ I s'.published := by
  have hend := hrun.keeps
    (fun isOpen s => s.Admits (if isOpen then .tx else .auto) i ∧ I (s.seen i) ∧ I s.published)
    hclose heach (fun _ _ n h => ⟨h.1.tick n, h.2⟩) ?_ ⟨hquiet.admits, (hquiet.seen_eq i).symm ▸ hI, hI⟩
  · exact ⟨hend.1.quiet, hend.2.2⟩
  rintro β q isOpen s b s' hφ hauto hC hq ⟨hadmits, hseen, hpublished⟩
  have hadmits' := admits_of_run hauto hq hadmits
  refine ⟨hadmits', ?_⟩
  have htx : s.Admits .tx i := by
    cases isOpen with
    | true => exact hadmits
    | false => exact hadmits.quiet.admits
  cases hm : q.mode with
  | none =>
    cases q with
    | commit =>
      cases hq
      rw [htx.commit.seen_eq, htx.published_commit]
      exact ⟨hseen, hseen⟩
    | rollback =>
      cases hq
      rw [htx.rollback.seen_eq, Db.published_rollback]
      exact ⟨hpublished, hpublished⟩
    | license | addVersion | importRun | listing | trade | area | job | claim | grantRole
    | recordCheck | record => cases hm
  | some m =>
    have hseen' := hstep q s b s' hφ hC hq (by rw [hm]; exact Option.some_ne_none m) hseen
    refine ⟨hseen', ?_⟩
    cases m with
    | tx =>
      rw [(Query.places hq hm).published_eq]
      exact hpublished
    | auto =>
      rw [hm] at hadmits'
      rw [← hadmits'.quiet.seen_eq i]
      exact hseen'

/-- **A request that is served to its end leaves nothing held.** -/
theorem quiet_of_runs {call : Call} {r : Except AppError Response}
    (hrun : (serve atlas call).run.Runs (registry atlas) C i s r s') (h : s.Quiet) : s'.Quiet :=
  (keeps_of_runs hrun (closes_serve call) (Prog.each_of_forall fun _ => trivial) (fun _ => True)
    (fun _ _ _ _ _ _ _ _ _ => trivial) h trivial).1

end Keeps

end Marketplace.Registry
