import Marketplace.Registry.Listings
import Marketplace.Registry.Claims
import Marketplace.Registry.Queue
import Marketplace.Audit.Log

/-!
# The tables of the registry

A query is a statement on one of the tables, in the open transaction or on its own, or the end of
the transaction. What it does to a table is therefore what the statements on that table do
(`Marketplace.Registry.Query.contractors_effect` and its companions), and whatever it does is
published at its end only, or at once when it is on its own (`Marketplace.Registry.Query.shown_eq`).
-/

namespace Marketplace.Registry

open ReadCommitted
open Audit (AuditEvent)

/-- **The database.** -/
structure Db where
  clock : Instant := 0
  /-- `license_records`. -/
  licenses : Licenses := .empty
  /-- `license_record_versions`. -/
  versions : Versions := .empty
  /-- `license_import_runs`. -/
  runs : Runs := .empty
  /-- `contractors`. -/
  contractors : Listings := .empty
  /-- `contractor_trades`. -/
  trades : Table ℕ TradeKey Unit := .empty
  /-- `contractor_service_areas`. -/
  areas : Table ℕ AreaKey Unit := .empty
  /-- `geocode_queue`. -/
  queue : Queue := .empty
  /-- `contractor_claims`. -/
  claims : ClaimTable := .empty
  /-- `user_roles`. -/
  roles : Table ℕ (Uuid × Role) RoleGrant := .empty
  /-- `verification_checks`. -/
  checks : Table ℕ Uuid Check := .empty
  /-- `audit_log`. -/
  audit : Table ℕ Uuid AuditEvent := .empty

/-- The database once `i` has committed. -/
def Db.commit (i : ℕ) (db : Db) : Db where
  clock := db.clock
  licenses := db.licenses.commit i
  versions := db.versions.commit i
  runs := db.runs.commit i
  contractors := db.contractors.commit i
  trades := db.trades.commit i
  areas := db.areas.commit i
  queue := db.queue.commit i
  claims := db.claims.commit i
  roles := db.roles.commit i
  checks := db.checks.commit i
  audit := db.audit.commit i

/-- The database once `i` has rolled back. -/
def Db.rollback (i : ℕ) (db : Db) : Db where
  clock := db.clock
  licenses := db.licenses.rollback i
  versions := db.versions.rollback i
  runs := db.runs.rollback i
  contractors := db.contractors.rollback i
  trades := db.trades.rollback i
  areas := db.areas.rollback i
  queue := db.queue.rollback i
  claims := db.claims.rollback i
  roles := db.roles.rollback i
  checks := db.checks.rollback i
  audit := db.audit.rollback i

/-- **The queries.** -/
inductive Query : Type → Type 1
  /-- A statement on `license_records`. -/
  | license {β : Type} (m : Mode) (q : LicenseStatement β) : Query β
  /-- Insert a version of a licence, unless there is one of this content. -/
  | addVersion (m : Mode) (licenseRecordId : Uuid) (contentHash : Digest) (version : Version) :
      Query Bool
  /-- A statement on `license_import_runs`. -/
  | importRun {β : Type} (m : Mode) (q : RunStatement β) : Query β
  /-- A statement on `contractors`. -/
  | listing {β : Type} (m : Mode) (q : ListingStatement β) : Query β
  /-- A statement on `contractor_trades`. -/
  | trade {β : Type} (m : Mode) (q : MemberStatement TradeKey β) : Query β
  /-- A statement on `contractor_service_areas`. -/
  | area {β : Type} (m : Mode) (q : MemberStatement AreaKey β) : Query β
  /-- A statement on `geocode_queue`. -/
  | job {β : Type} (m : Mode) (q : JobStatement β) : Query β
  /-- A statement on `contractor_claims`. -/
  | claim {β : Type} (m : Mode) (q : ClaimStatement β) : Query β
  /-- Grant a role, unless the account has it. -/
  | grantRole (m : Mode) (userId : Uuid) (role : Role) (grant : RoleGrant) : Query Bool
  /-- Record a check. -/
  | recordCheck (m : Mode) (check : Check) : Query (Option Uuid)
  /-- Write an event. -/
  | record (m : Mode) (event : AuditEvent) : Query (Option Uuid)
  /-- Commit the open transaction. -/
  | commit : Query Unit
  /-- Roll the open transaction back. -/
  | rollback : Query Unit

namespace Query

variable (atlas : Atlas) {β : Type}

/-- **What a query does**, on behalf of process `i`. -/
def run : Query β → ℕ → Db → Option (β × Db)
  | .license m q, i, db => (q.run m i db.licenses).map fun p => (p.1, { db with licenses := p.2 })
  | .addVersion m k hash version, i, db =>
    (db.versions.modify m i (k, hash) (Table.inserting version)).map
      fun p => (p.1, { db with versions := p.2 })
  | .importRun m q, i, db => (q.run m i db.runs).map fun p => (p.1, { db with runs := p.2 })
  | .listing m q, i, db =>
    (q.run atlas m i db.contractors).map fun p => (p.1, { db with contractors := p.2 })
  | .trade m q, i, db => (q.run m i db.trades).map fun p => (p.1, { db with trades := p.2 })
  | .area m q, i, db => (q.run m i db.areas).map fun p => (p.1, { db with areas := p.2 })
  | .job m q, i, db => (q.run m i db.queue).map fun p => (p.1, { db with queue := p.2 })
  | .claim m q, i, db => (q.run m i db.claims).map fun p => (p.1, { db with claims := p.2 })
  | .grantRole m userId role grant, i, db =>
    (db.roles.modify m i (userId, role) (Table.inserting grant)).map
      fun p => (p.1, { db with roles := p.2 })
  | .recordCheck m check, i, db =>
    (db.checks.insertFresh m i (fun _ => false) check).map fun p => (p.1, { db with checks := p.2 })
  | .record m event, i, db =>
    (db.audit.insertFresh m i (fun _ => false) event).map fun p => (p.1, { db with audit := p.2 })
  | .commit, i, db => some ((), db.commit i)
  | .rollback, i, db => some ((), db.rollback i)

/-! ### What a query does to each table -/

/-- The query publishes what its process has written. -/
def isCommit : Query β → Prop
  | .commit => True
  | _ => False

/-- The query publishes something: what its process has written, or a row of its own. -/
def publishes : Query β → Prop
  | .license m _ | .addVersion m _ _ _ | .importRun m _ | .listing m _ | .trade m _ | .area m _
  | .job m _ | .claim m _ | .grantRole m _ _ _ | .recordCheck m _ | .record m _ => m = .auto
  | .commit => True
  | .rollback => False

/-- The versions of a licence that a query puts over one. -/
def writesLicense : Query β → Uuid → Option License → License → Prop
  | .license _ q => q.writes
  | _ => fun _ _ _ => False

/-- The versions of a listing that a query puts over one. -/
def writesListing : Query β → Uuid → Option Contractor → Contractor → Prop
  | .listing _ q => q.writes
  | _ => fun _ _ _ => False

/-- The versions of a claim that a query puts over one. -/
def writesClaim : Query β → Uuid → Option Claim → Claim → Prop
  | .claim _ q => q.writes
  | _ => fun _ _ _ => False

variable {atlas} {q : Query β} {i : ℕ} {db db' : Db} {b : β}

theorem licenses_effect (h : q.run atlas i db = some (b, db')) :
    db.licenses.Effect q.writesLicense i db'.licenses := by
  cases q with
  | license m q =>
    obtain ⟨⟨b', t⟩, ht, he⟩ := Option.map_eq_some_iff.mp h
    cases he
    exact (LicenseStatement.written ht).effect.mono fun k l ⟨_, hA⟩ => hA.2
  | commit =>
    cases h
    exact .commit _
  | rollback =>
    cases h
    exact .rollback _
  | addVersion | importRun | listing | trade | area | job | claim | grantRole | recordCheck
  | record =>
    obtain ⟨⟨b', t⟩, ht, he⟩ := Option.map_eq_some_iff.mp h
    cases he
    exact .keep _

theorem contractors_effect (h : q.run atlas i db = some (b, db')) :
    db.contractors.Effect q.writesListing i db'.contractors := by
  cases q with
  | listing m q =>
    obtain ⟨⟨b', t⟩, ht, he⟩ := Option.map_eq_some_iff.mp h
    cases he
    exact (ListingStatement.written ht).effect.mono fun k c ⟨_, hA⟩ => hA.2
  | commit =>
    cases h
    exact .commit _
  | rollback =>
    cases h
    exact .rollback _
  | license | addVersion | importRun | trade | area | job | claim | grantRole | recordCheck
  | record =>
    obtain ⟨⟨b', t⟩, ht, he⟩ := Option.map_eq_some_iff.mp h
    cases he
    exact .keep _

theorem claims_effect (h : q.run atlas i db = some (b, db')) :
    db.claims.Effect q.writesClaim i db'.claims := by
  cases q with
  | claim m q =>
    obtain ⟨⟨b', t⟩, ht, he⟩ := Option.map_eq_some_iff.mp h
    cases he
    exact (ClaimStatement.written ht).effect.mono fun k c ⟨_, hA⟩ => hA.2
  | commit =>
    cases h
    exact .commit _
  | rollback =>
    cases h
    exact .rollback _
  | license | addVersion | importRun | listing | trade | area | job | grantRole | recordCheck
  | record =>
    obtain ⟨⟨b', t⟩, ht, he⟩ := Option.map_eq_some_iff.mp h
    cases he
    exact .keep _

end Query

/-! ### What is published -/

/-- What is published of the listings, claims, roles, checks and events. -/
def Db.shown (db : Db) : (Uuid → Option Contractor) × (Uuid → Option Claim) ×
    (Uuid × Role → Option RoleGrant) × (Uuid → Option Check) × (Uuid → Option AuditEvent) :=
  (fun k => (db.contractors.slot k).committed, fun k => (db.claims.slot k).committed,
    fun k => (db.roles.slot k).committed, fun k => (db.checks.slot k).committed,
    fun k => (db.audit.slot k).committed)

namespace Query

variable {atlas : Atlas} {β : Type} {q : Query β} {i : ℕ} {db db' : Db} {b : β}

/-- **Nothing but a query that publishes is seen by others.** -/
theorem shown_eq (h : q.run atlas i db = some (b, db')) (hq : ¬ q.publishes) :
    db'.shown = db.shown := by
  have htx : ∀ {m : Mode}, ¬ m = .auto → m = .tx := by
    intro m hm
    cases m with
    | tx => rfl
    | auto => exact absurd rfl hm
  cases q with
  | listing m q =>
    obtain ⟨⟨b', t⟩, ht, he⟩ := Option.map_eq_some_iff.mp h
    cases he
    have hsame := (ListingStatement.written ht).committed fun _ _ _ _ hA => hA.1.trans (htx hq)
    rw [Db.shown, Db.shown, funext hsame]
  | claim m q =>
    obtain ⟨⟨b', t⟩, ht, he⟩ := Option.map_eq_some_iff.mp h
    cases he
    have hsame := (ClaimStatement.written ht).committed fun _ _ _ _ hA => hA.1.trans (htx hq)
    rw [Db.shown, Db.shown, funext hsame]
  | grantRole m userId role grant =>
    obtain rfl := htx hq
    obtain ⟨⟨b', t⟩, ht, he⟩ := Option.map_eq_some_iff.mp h
    cases he
    rw [Db.shown, Db.shown, funext (Table.committed_modify ht)]
  | recordCheck m check =>
    obtain rfl := htx hq
    obtain ⟨⟨b', t⟩, ht, he⟩ := Option.map_eq_some_iff.mp h
    cases he
    rw [Db.shown, Db.shown, funext (Table.committed_insertFresh ht)]
  | record m event =>
    obtain rfl := htx hq
    obtain ⟨⟨b', t⟩, ht, he⟩ := Option.map_eq_some_iff.mp h
    cases he
    rw [Db.shown, Db.shown, funext (Table.committed_insertFresh ht)]
  | license | addVersion | importRun | trade | area | job =>
    obtain ⟨⟨b', t⟩, ht, he⟩ := Option.map_eq_some_iff.mp h
    cases he
    rfl
  | commit => exact absurd trivial hq
  | rollback =>
    cases h
    have hsame : ∀ {K R : Type} (t : Table ℕ K R),
        (fun k => ((t.rollback i).slot k).committed) = fun k => (t.slot k).committed := by
      intro K R t
      funext k
      exact Slot.rollback_committed
    rw [Db.shown, Db.shown, Db.rollback]
    simp only [hsame]

end Query

end Marketplace.Registry
