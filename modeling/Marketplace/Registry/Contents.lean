import Marketplace.ReadCommitted.Serial
import Marketplace.ReadCommitted.Views
import Marketplace.Registry.Footprint

/-!
# The registry, one request after the other

When requests are served one after the other, the database is what is stored in its tables
(`Marketplace.Registry.Contents`), and nothing else. A process that is in a transaction sees such
contents, while others are published (`Marketplace.Registry.Db.Stage`); between requests there is
no transaction, and everybody sees what is published (`Marketplace.Registry.Db.Quiet`).

Every request leaves the database quiet (`Marketplace.Registry.quiet_of_runs`): whatever it does in a
transaction it commits or rolls back.
-/

namespace Marketplace.Registry

open ReadCommitted
open Audit (AuditEvent)

/-! ### Contents -/

/-- **What is stored.** -/
@[ext]
structure Contents where
  /-- `license_records`. -/
  licenses : Uuid → Option License
  /-- `license_record_versions`. -/
  versions : Uuid × Digest → Option Version
  /-- `license_import_runs`. -/
  runs : Uuid → Option ImportRun
  /-- `contractors`. -/
  contractors : Uuid → Option Contractor
  /-- `contractor_trades`. -/
  trades : TradeKey → Option Unit
  /-- `contractor_service_areas`. -/
  areas : AreaKey → Option Unit
  /-- `geocode_queue`. -/
  queue : Uuid → Option GeocodeJob

/-- What process `i` sees. -/
def Db.seen (i : ℕ) (db : Db) : Contents where
  licenses := db.licenses.seen i
  versions := db.versions.seen i
  runs := db.runs.seen i
  contractors := db.contractors.seen i
  trades := db.trades.seen i
  areas := db.areas.seen i
  queue := db.queue.seen i

/-- What is published. -/
def Db.published (db : Db) : Contents where
  licenses := db.licenses.shown
  versions := db.versions.shown
  runs := db.runs.shown
  contractors := db.contractors.shown
  trades := db.trades.shown
  areas := db.areas.shown
  queue := db.queue.shown

/-! ### Who is in the way -/

/-- **Nobody is in the way of a statement**, on any table. -/
structure Db.Admits (m : Mode) (i : ℕ) (db : Db) : Prop where
  licenses : db.licenses.Admits m i
  versions : db.versions.Admits m i
  runs : db.runs.Admits m i
  contractors : db.contractors.Admits m i
  trades : db.trades.Admits m i
  areas : db.areas.Admits m i
  queue : db.queue.Admits m i
  claims : db.claims.Admits m i
  roles : db.roles.Admits m i
  checks : db.checks.Admits m i
  audit : db.audit.Admits m i

/-- **No transaction is open.** -/
def Db.Quiet (db : Db) : Prop := db.Admits .auto 0

namespace Db

variable {m n : Mode} {i j : ℕ} {db : Db} {C P : Contents}

theorem Quiet.admits (h : db.Quiet) : db.Admits m i where
  licenses := Table.admits_of_unlocked h.licenses.unlocked
  versions := Table.admits_of_unlocked h.versions.unlocked
  runs := Table.admits_of_unlocked h.runs.unlocked
  contractors := Table.admits_of_unlocked h.contractors.unlocked
  trades := Table.admits_of_unlocked h.trades.unlocked
  areas := Table.admits_of_unlocked h.areas.unlocked
  queue := Table.admits_of_unlocked h.queue.unlocked
  claims := Table.admits_of_unlocked h.claims.unlocked
  roles := Table.admits_of_unlocked h.roles.unlocked
  checks := Table.admits_of_unlocked h.checks.unlocked
  audit := Table.admits_of_unlocked h.audit.unlocked

theorem Admits.quiet (h : db.Admits .auto i) : db.Quiet where
  licenses := h.licenses
  versions := h.versions
  runs := h.runs
  contractors := h.contractors
  trades := h.trades
  areas := h.areas
  queue := h.queue
  claims := h.claims
  roles := h.roles
  checks := h.checks
  audit := h.audit

/-- Between requests, everybody sees what is published. -/
theorem Quiet.seen_eq (h : db.Quiet) (i : ℕ) : db.seen i = db.published :=
  Contents.ext h.licenses.seen_eq h.versions.seen_eq h.runs.seen_eq h.contractors.seen_eq
    h.trades.seen_eq h.areas.seen_eq h.queue.seen_eq

theorem Admits.commit (h : db.Admits m i) : (db.commit i).Quiet where
  licenses := h.licenses.commit _ _
  versions := h.versions.commit _ _
  runs := h.runs.commit _ _
  contractors := h.contractors.commit _ _
  trades := h.trades.commit _ _
  areas := h.areas.commit _ _
  queue := h.queue.commit _ _
  claims := h.claims.commit _ _
  roles := h.roles.commit _ _
  checks := h.checks.commit _ _
  audit := h.audit.commit _ _

/-- **A commit publishes what the process sees.** -/
theorem Admits.published_commit (h : db.Admits m i) : (db.commit i).published = db.seen i :=
  Contents.ext h.licenses.shown_commit h.versions.shown_commit h.runs.shown_commit
    h.contractors.shown_commit h.trades.shown_commit h.areas.shown_commit h.queue.shown_commit

theorem Admits.rollback (h : db.Admits m i) : (db.rollback i).Quiet where
  licenses := h.licenses.rollback _ _
  versions := h.versions.rollback _ _
  runs := h.runs.rollback _ _
  contractors := h.contractors.rollback _ _
  trades := h.trades.rollback _ _
  areas := h.areas.rollback _ _
  queue := h.queue.rollback _ _
  claims := h.claims.rollback _ _
  roles := h.roles.rollback _ _
  checks := h.checks.rollback _ _
  audit := h.audit.rollback _ _

/-- Time passes. -/
theorem Admits.tick {atlas : Atlas} (h : db.Admits m i) (n : ℕ) :
    ((registry atlas).tick n db).Admits m i :=
  { h with }

theorem published_rollback : (db.rollback i).published = db.published :=
  Contents.ext Table.shown_rollback Table.shown_rollback Table.shown_rollback Table.shown_rollback
    Table.shown_rollback Table.shown_rollback Table.shown_rollback

/-- **Process `i` is in a transaction**, in which it sees `C`, while `P` is published. -/
structure Stage (i : ℕ) (P C : Contents) (db : Db) : Prop where
  admits : db.Admits .tx i
  seen : db.seen i = C
  published : db.published = P

/-- **No transaction is open**, and `C` is published. -/
structure Rests (C : Contents) (db : Db) : Prop where
  quiet : db.Quiet
  published : db.published = C

theorem Rests.stage (h : db.Rests C) (i : ℕ) : db.Stage i C C :=
  ⟨h.quiet.admits, (h.quiet.seen_eq i).trans h.published, h.published⟩

theorem Stage.commit (h : db.Stage i P C) : (db.commit i).Rests C :=
  ⟨h.admits.commit, h.admits.published_commit.trans h.seen⟩

theorem Stage.tick {atlas : Atlas} (h : db.Stage i P C) (n : ℕ) :
    ((registry atlas).tick n db).Stage i P C :=
  ⟨h.admits.tick n, h.seen, h.published⟩

theorem Rests.tick {atlas : Atlas} (h : db.Rests C) (n : ℕ) :
    ((registry atlas).tick n db).Rests C :=
  ⟨Admits.tick h.quiet n, h.published⟩

theorem Stage.rollback (h : db.Stage i P C) : (db.rollback i).Rests P :=
  ⟨h.admits.rollback, published_rollback.trans h.published⟩

end Db

/-! ### What a query does -/

/-- In what way a query is issued; the end of a transaction is issued in neither. -/
def Query.mode {β : Type} : Query β → Option Mode
  | .license m _ | .addVersion m _ _ _ | .importRun m _ | .listing m _ | .trade m _ | .area m _
  | .job m _ | .claim m _ | .grantRole m _ _ _ | .recordCheck m _ | .record m _ => some m
  | .commit | .rollback => none

section Places

variable {atlas : Atlas} {β : Type} {m : Mode} {i : ℕ} {b : β}

theorem LicenseStatement.places {q : LicenseStatement β} {t t' : Licenses}
    (h : q.run m i t = some (b, t')) : t.Places m i t' := by
  cases q with
  | touch | update => exact Table.places_of_modify h
  | insert record runId now =>
    rw [run] at h
    split at h
    · exact Table.places_of_insertFresh h
    · cases h
      exact .keep _

theorem RunStatement.places {q : RunStatement β} {t t' : Runs} (h : q.run m i t = some (b, t')) :
    t.Places m i t' := by
  cases q with
  | begin run =>
    rw [RunStatement.run] at h
    split at h
    · cases h
      exact .keep _
    · exact Table.places_of_insertFresh h
  | finish => exact Table.places_of_modifyUnique h

theorem ListingStatement.places {q : ListingStatement β} {t t' : Listings}
    (h : q.run atlas m i t = some (b, t')) : t.Places m i t' := by
  cases q with
  | insert facts =>
    rw [run] at h
    split at h
    · exact Table.places_of_insertFresh h
    · cases h
      exact .keep _
  | update => exact Table.places_of_modify h
  | attach => exact Table.places_of_modifyUnique h

theorem MemberStatement.places {K : Type} [DecidableEq K] {q : MemberStatement K β}
    {t t' : Table ℕ K Unit} (h : q.run m i t = some (b, t')) : t.Places m i t' := by
  cases q with
  | add => exact Table.places_of_modify h
  | drop => exact Table.places_of_remove h

theorem JobStatement.places {q : JobStatement β} {t t' : Queue} (h : q.run m i t = some (b, t')) :
    t.Places m i t' := by
  cases q with
  | enqueue => exact Table.places_of_insertFresh h
  | claim => exact Table.places_of_skipLocked h
  | markFailed => exact Table.places_of_modifyUnique h
  | markSucceeded | markSkipped | requeue => exact Table.places_of_modify h

theorem ClaimStatement.places {q : ClaimStatement β} {t t' : ClaimTable}
    (h : q.run m i t = some (b, t')) : t.Places m i t' := by
  cases q with
  | insert claim =>
    rw [run] at h
    split at h
    · obtain ⟨⟨o, t₁⟩, ht, he⟩ := Option.map_eq_some_iff.mp h
      cases he
      exact Table.places_of_insertFresh ht
    · cases h
      exact .keep _
  | decide => exact Table.places_of_modifyUnique h

/-- **What a query that does not end the transaction does to the tables.** -/
structure Db.Places (m : Mode) (i : ℕ) (db db' : Db) : Prop where
  licenses : db.licenses.Places m i db'.licenses
  versions : db.versions.Places m i db'.versions
  runs : db.runs.Places m i db'.runs
  contractors : db.contractors.Places m i db'.contractors
  trades : db.trades.Places m i db'.trades
  areas : db.areas.Places m i db'.areas
  queue : db.queue.Places m i db'.queue
  claims : db.claims.Places m i db'.claims
  roles : db.roles.Places m i db'.roles
  checks : db.checks.Places m i db'.checks
  audit : db.audit.Places m i db'.audit

theorem Db.Places.refl (m : Mode) (i : ℕ) (db : Db) : db.Places m i db where
  licenses := .keep _
  versions := .keep _
  runs := .keep _
  contractors := .keep _
  trades := .keep _
  areas := .keep _
  queue := .keep _
  claims := .keep _
  roles := .keep _
  checks := .keep _
  audit := .keep _

theorem Query.places {q : Query β} {db db' : Db} (h : q.run atlas i db = some (b, db'))
    (hm : q.mode = some m) : db.Places m i db' := by
  have hkeep := Db.Places.refl m i db
  cases q with
  | commit | rollback => cases hm
  | license m q =>
    obtain ⟨⟨b', t⟩, ht, he⟩ := Option.map_eq_some_iff.mp h
    cases he
    cases hm
    exact { hkeep with licenses := LicenseStatement.places ht }
  | addVersion m k hash version =>
    obtain ⟨⟨b', t⟩, ht, he⟩ := Option.map_eq_some_iff.mp h
    cases he
    cases hm
    exact { hkeep with versions := Table.places_of_modify ht }
  | importRun m q =>
    obtain ⟨⟨b', t⟩, ht, he⟩ := Option.map_eq_some_iff.mp h
    cases he
    cases hm
    exact { hkeep with runs := RunStatement.places ht }
  | listing m q =>
    obtain ⟨⟨b', t⟩, ht, he⟩ := Option.map_eq_some_iff.mp h
    cases he
    cases hm
    exact { hkeep with contractors := ListingStatement.places ht }
  | trade m q =>
    obtain ⟨⟨b', t⟩, ht, he⟩ := Option.map_eq_some_iff.mp h
    cases he
    cases hm
    exact { hkeep with trades := MemberStatement.places ht }
  | area m q =>
    obtain ⟨⟨b', t⟩, ht, he⟩ := Option.map_eq_some_iff.mp h
    cases he
    cases hm
    exact { hkeep with areas := MemberStatement.places ht }
  | job m q =>
    obtain ⟨⟨b', t⟩, ht, he⟩ := Option.map_eq_some_iff.mp h
    cases he
    cases hm
    exact { hkeep with queue := JobStatement.places ht }
  | claim m q =>
    obtain ⟨⟨b', t⟩, ht, he⟩ := Option.map_eq_some_iff.mp h
    cases he
    cases hm
    exact { hkeep with claims := ClaimStatement.places ht }
  | grantRole m userId role grant =>
    obtain ⟨⟨b', t⟩, ht, he⟩ := Option.map_eq_some_iff.mp h
    cases he
    cases hm
    exact { hkeep with roles := Table.places_of_modify ht }
  | recordCheck m check =>
    obtain ⟨⟨b', t⟩, ht, he⟩ := Option.map_eq_some_iff.mp h
    cases he
    cases hm
    exact { hkeep with checks := Table.places_of_insertFresh ht }
  | record m event =>
    obtain ⟨⟨b', t⟩, ht, he⟩ := Option.map_eq_some_iff.mp h
    cases he
    cases hm
    exact { hkeep with audit := Table.places_of_insertFresh ht }

theorem Db.Places.admits {db db' : Db} (h : db.Places m i db') (hdb : db.Admits m i) :
    db'.Admits m i where
  licenses := h.licenses.admits hdb.licenses
  versions := h.versions.admits hdb.versions
  runs := h.runs.admits hdb.runs
  contractors := h.contractors.admits hdb.contractors
  trades := h.trades.admits hdb.trades
  areas := h.areas.admits hdb.areas
  queue := h.queue.admits hdb.queue
  claims := h.claims.admits hdb.claims
  roles := h.roles.admits hdb.roles
  checks := h.checks.admits hdb.checks
  audit := h.audit.admits hdb.audit

/-- A statement of an open transaction publishes nothing. -/
theorem Db.Places.published_eq {db db' : Db} (h : db.Places .tx i db') :
    db'.published = db.published :=
  Contents.ext h.licenses.shown_eq h.versions.shown_eq h.runs.shown_eq h.contractors.shown_eq
    h.trades.shown_eq h.areas.shown_eq h.queue.shown_eq

end Places

end Marketplace.Registry
