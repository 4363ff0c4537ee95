import Marketplace.Jobs.Rows
import Marketplace.ReadCommitted.Lasting
import Marketplace.ReadCommitted.Faults

/-!
# The tables of jobs and photographs

Jobs are closed and reopened by conditional updates. A photograph is inserted by a statement of
its own, at a place that was computed before, and deleted in a transaction. The object store is
not part of the database: what is put there or removed is so at once, for everybody.

Two tables hold photographs, and every statement on one is a statement on the other.
-/

namespace Marketplace.Jobs

open Alerts (NewJob Ending)
open Audit (AuditEvent)
open Board (JobStatus)
open ReadCommitted

/-- What process `i` has done to photographs. -/
inductive Deed
  /-- It read the keys of those of a job. -/
  | listed (i : ℕ) (jobId : Uuid)
  /-- It deleted the row of one. -/
  | deleted (i : ℕ) (photo : Photo)
  /-- It asked the store to remove an object. -/
  | removed (i : ℕ) (key : Key)
  deriving DecidableEq

/-- **The database, and the object store.** -/
structure Db where
  clock : Instant := 0
  jobs : Table ℕ Uuid JobRow := .empty
  /-- `job_photos`, and `contractor_photos`. -/
  photos : Gallery → Table ℕ Uuid Photo := fun _ => .empty
  /-- `audit_log`. -/
  audit : Table ℕ Uuid AuditEvent := .empty
  /-- The objects in the store. -/
  objects : List Key := []
  /-- What no statement reads: the deeds of all processes. -/
  deeds : List Deed := []

/-- The database once `i` has committed. -/
def Db.commit (i : ℕ) (db : Db) : Db :=
  { db with
    jobs := db.jobs.commit i
    photos := fun g => (db.photos g).commit i
    audit := db.audit.commit i }

/-- The database once `i` has rolled back. -/
def Db.rollback (i : ℕ) (db : Db) : Db :=
  { db with
    jobs := db.jobs.rollback i
    photos := fun g => (db.photos g).rollback i
    audit := db.audit.rollback i }

/-- The database with one table of photographs replaced. -/
def Db.setPhotos (g : Gallery) (t : Table ℕ Uuid Photo) (db : Db) : Db :=
  { db with photos := fun g' => if g' = g then t else db.photos g' }

@[simp] theorem photos_setPhotos_self {g : Gallery} {t : Table ℕ Uuid Photo} {db : Db} :
    (db.setPhotos g t).photos g = t :=
  if_pos rfl

theorem photos_setPhotos_of_ne {g g' : Gallery} {t : Table ℕ Uuid Photo} {db : Db} (h : g' ≠ g) :
    (db.setPhotos g t).photos g' = db.photos g' :=
  if_neg h

theorem setPhotos_photos {g : Gallery} {db : Db} : db.setPhotos g (db.photos g) = db := by
  rw [Db.setPhotos]
  congr 1
  funext g'
  split
  · rename_i h
    rw [h]
  · rfl

/-- **The queries.** -/
inductive Query : Type → Type 1
  /-- Insert a job. -/
  | insertJob (id : Uuid) (job : NewJob) (now : Instant) : Query Bool
  /-- Close or cancel a job. -/
  | closeJob (id poster : Uuid) (status : Ending) (now : Instant) : Query (Option Unit)
  /-- Put a closed job back on the board. -/
  | reopenJob (id poster : Uuid) : Query (Option Unit)
  /-- Insert a photograph. -/
  | insertPhoto (g : Gallery) (id : Uuid) (photo : Photo) : Query Bool
  /-- Read the keys of the photographs of a job. -/
  | keysForJob (id : Uuid) : Query (List Key)
  /-- Delete a photograph of an owner. -/
  | deletePhoto (g : Gallery) (ownerId id : Uuid) : Query (Option Key)
  /-- Write an event. -/
  | record (m : Mode) (event : AuditEvent) : Query (Option Uuid)
  /-- Put an object in the store. -/
  | putObject (key : Key) : Query Bool
  /-- Remove an object from the store. -/
  | removeObject (key : Key) : Query Bool
  /-- Commit the open transaction. -/
  | commit : Query Unit
  /-- Roll the open transaction back. -/
  | rollback : Query Unit

/-- `keys_for_job`, as process `j` runs it. -/
def Db.keysForJob (id : Uuid) (j : ℕ) (db : Db) : List Key :=
  ((db.photos .job).rows j).filterMap fun photo =>
    if photo.ownerId = id then some photo.storageKey else none

/-- The deletion of row `k`, of an owner, by process `i`. -/
def Db.deletePhoto (g : Gallery) (ownerId k : Uuid) (i : ℕ) (db : Db) :
    Option (Option Key × Db) :=
  ((db.photos g).remove .tx i k fun photo => photo.ownerId = ownerId).map fun p =>
    match p.1, (db.photos g).row i k with
    | true, some photo =>
      (some photo.storageKey, { db.setPhotos g p.2 with deeds := .deleted i photo :: db.deeds })
    | _, _ => (none, db.setPhotos g p.2)

variable (setting : Setting)

/-- **What a query does**, on behalf of process `i`. A trigger refuses the jobs of those who are
not homeowners. -/
def Query.run {β : Type} : Query β → ℕ → Db → Option (β × Db)
  | .insertJob k job now, i, db =>
    if setting.homeowner job.postedByUserId then
      (db.jobs.modify .tx i k (Table.inserting (JobRow.new job k now))).map
        fun p => (p.1, { db with jobs := p.2 })
    else some (false, db)
  | .closeJob k poster status now, i, db =>
    (db.jobs.modify .tx i k (Table.updating (JobRow.close i poster status now))).map
      fun p => (p.1, { db with jobs := p.2 })
  | .reopenJob k poster, i, db =>
    (db.jobs.modify .tx i k (Table.updating (JobRow.reopen i poster))).map
      fun p => (p.1, { db with jobs := p.2 })
  | .insertPhoto g k photo, i, db =>
    ((db.photos g).insertUnique .auto i k photo.clashes photo).map
      fun p => (p.1, db.setPhotos g p.2)
  | .keysForJob id, i, db =>
    some (db.keysForJob id i, { db with deeds := .listed i id :: db.deeds })
  | .deletePhoto g ownerId k, i, db => db.deletePhoto g ownerId k i
  | .record m event, i, db =>
    (db.audit.insertFresh m i (fun _ => false) event).map
      fun p => (p.1, { db with audit := p.2 })
  | .putObject key, _, db =>
    if setting.storage db.clock then some (true, { db with objects := key :: db.objects })
    else some (false, db)
  | .removeObject key, i, db =>
    let db := { db with deeds := .removed i key :: db.deeds }
    if setting.storage db.clock then
      some (true, { db with objects := db.objects.filter fun k => k ≠ key })
    else some (false, db)
  | .commit, i, db => some ((), db.commit i)
  | .rollback, i, db => some ((), db.rollback i)

/-! ### What a query does to each table -/

namespace Query

/-- The query publishes what its process has written. -/
def isCommit {β : Type} : Query β → Prop
  | .commit => True
  | _ => False

/-- The query publishes something of the database: what its process has written, or a row of its
own. -/
def publishes {β : Type} : Query β → Prop
  | .commit => True
  | .insertPhoto _ _ _ => True
  | .record m _ => m = .auto
  | _ => False

/-- The versions of a job that a query of process `i` puts over one. -/
def writesJob (i : ℕ) {β : Type} : Query β → Uuid → Option JobRow → JobRow → Prop
  | .insertJob id job now, k, o, r' => k = id ∧ o = none ∧ r' = JobRow.new job id now
  | .closeJob id poster status now, k, o, r' =>
    k = id ∧ ∃ r, o = some r ∧ r.close i poster status now = some ((), r')
  | .reopenJob id poster, k, o, r' =>
    k = id ∧ ∃ r, o = some r ∧ r.reopen i poster = some ((), r')
  | _, _, _, _ => False

variable {setting} {β : Type} {q : Query β} {i : ℕ} {db db' : Db} {b : β}

/-- The deletion of a photograph leaves everything but the photographs alone. -/
theorem deletePhoto_frame {g : Gallery} {ownerId k : Uuid} {b : Option Key}
    (h : db.deletePhoto g ownerId k i = some (b, db')) :
    db'.jobs = db.jobs ∧ db'.audit = db.audit ∧ db'.clock = db.clock ∧
      ∀ g k, ((db'.photos g).slot k).committed = ((db.photos g).slot k).committed := by
  obtain ⟨⟨hit, t⟩, ht, he⟩ := Option.map_eq_some_iff.mp h
  have hset : ∀ g' l, (((db.setPhotos g t).photos g').slot l).committed =
      ((db.photos g').slot l).committed := by
    intro g' l
    rcases eq_or_ne g' g with rfl | hne
    · rw [photos_setPhotos_self]
      exact Table.committed_remove ht l
    · rw [photos_setPhotos_of_ne hne]
  split at he
  · cases he
    exact ⟨rfl, rfl, rfl, hset⟩
  · cases he
    exact ⟨rfl, rfl, rfl, hset⟩

/-- The query is not one on jobs, and does not end the transaction. -/
def leavesJobs {β : Type} : Query β → Prop
  | .insertPhoto _ _ _ | .keysForJob _ | .deletePhoto _ _ _ | .record _ _ => True
  | .putObject _ | .removeObject _ => True
  | _ => False

theorem jobs_eq (h : q.run setting i db = some (b, db')) (hq : q.leavesJobs) :
    db'.jobs = db.jobs := by
  cases q with
  | insertPhoto | record =>
    obtain ⟨⟨b', t⟩, ht, he⟩ := Option.map_eq_some_iff.mp h
    cases he
    rfl
  | keysForJob =>
    cases h
    rfl
  | deletePhoto g ownerId k => exact (deletePhoto_frame h).1
  | putObject | removeObject =>
    rw [run] at h
    split at h <;> cases h <;> rfl
  | insertJob | closeJob | reopenJob | commit | rollback => exact hq.elim

/-- Writing an event does not fail. -/
theorem record_isSome {m : Mode} {event : AuditEvent} {o : Option Uuid}
    (h : (Query.record m event).run setting i db = some (o, db')) : o.isSome = true := by
  obtain ⟨⟨b', t⟩, ht, he⟩ := Option.map_eq_some_iff.mp h
  cases he
  exact Table.isSome_of_insertFresh ht

theorem jobs_effect (h : q.run setting i db = some (b, db')) :
    db.jobs.Effect (q.writesJob i) i db'.jobs := by
  cases q with
  | insertJob k job now =>
    rw [run] at h
    split at h
    · obtain ⟨⟨b', t⟩, ht, he⟩ := Option.map_eq_some_iff.mp h
      cases he
      refine Table.effect_of_modify ht fun r' hr' => ?_
      obtain ⟨hnone, rfl⟩ := Table.inserting_cases hr'
      exact ⟨rfl, hnone, rfl⟩
    · cases h
      exact .keep _
  | closeJob k poster status now =>
    obtain ⟨⟨b', t⟩, ht, he⟩ := Option.map_eq_some_iff.mp h
    cases he
    refine Table.effect_of_modify ht fun r' hr' => ?_
    obtain ⟨r, u, hrow, hr⟩ := Table.updating_cases hr'
    exact ⟨rfl, r, hrow, hr⟩
  | reopenJob k poster =>
    obtain ⟨⟨b', t⟩, ht, he⟩ := Option.map_eq_some_iff.mp h
    cases he
    refine Table.effect_of_modify ht fun r' hr' => ?_
    obtain ⟨r, u, hrow, hr⟩ := Table.updating_cases hr'
    exact ⟨rfl, r, hrow, hr⟩
  | insertPhoto | keysForJob | deletePhoto | record | putObject | removeObject =>
    rw [jobs_eq h trivial]
    exact .keep _
  | commit =>
    cases h
    exact .commit _
  | rollback =>
    cases h
    exact .rollback _

/-- **Nothing but a query that publishes is seen by others.** -/
theorem committed_eq (h : q.run setting i db = some (b, db')) (hq : ¬ q.publishes) :
    (∀ k, (db'.jobs.slot k).committed = (db.jobs.slot k).committed) ∧
      (∀ g k, ((db'.photos g).slot k).committed = ((db.photos g).slot k).committed) ∧
      ∀ k, (db'.audit.slot k).committed = (db.audit.slot k).committed := by
  cases q with
  | insertJob k job now =>
    rw [run] at h
    split at h
    · obtain ⟨⟨b', t⟩, ht, he⟩ := Option.map_eq_some_iff.mp h
      cases he
      exact ⟨Table.committed_modify ht, fun _ _ => rfl, fun _ => rfl⟩
    · cases h
      exact ⟨fun _ => rfl, fun _ _ => rfl, fun _ => rfl⟩
  | closeJob | reopenJob =>
    obtain ⟨⟨b', t⟩, ht, he⟩ := Option.map_eq_some_iff.mp h
    cases he
    exact ⟨Table.committed_modify ht, fun _ _ => rfl, fun _ => rfl⟩
  | record m event =>
    obtain ⟨⟨b', t⟩, ht, he⟩ := Option.map_eq_some_iff.mp h
    cases he
    cases m with
    | tx => exact ⟨fun _ => rfl, fun _ _ => rfl, Table.committed_insertFresh ht⟩
    | auto => exact absurd rfl hq
  | keysForJob =>
    cases h
    exact ⟨fun _ => rfl, fun _ _ => rfl, fun _ => rfl⟩
  | deletePhoto g ownerId k =>
    obtain ⟨hjobs, haudit, -, hphotos⟩ := deletePhoto_frame h
    exact ⟨fun _ => by rw [hjobs], hphotos, fun _ => by rw [haudit]⟩
  | putObject | removeObject =>
    rw [run] at h
    split at h <;> cases h <;> exact ⟨fun _ => rfl, fun _ _ => rfl, fun _ => rfl⟩
  | insertPhoto => exact absurd trivial hq
  | commit => exact absurd trivial hq
  | rollback =>
    cases h
    exact ⟨fun _ => Slot.rollback_committed, fun _ _ => Slot.rollback_committed,
      fun _ => Slot.rollback_committed⟩

/-- Nothing but a commit publishes a job. -/
theorem jobs_committed_or_commit (h : q.run setting i db = some (b, db')) :
    (∀ k, (db'.jobs.slot k).committed = (db.jobs.slot k).committed) ∨
      q.isCommit ∧ db' = db.commit i := by
  cases q with
  | commit =>
    cases h
    exact Or.inr ⟨trivial, rfl⟩
  | insertPhoto | record =>
    obtain ⟨⟨b', t⟩, ht, he⟩ := Option.map_eq_some_iff.mp h
    cases he
    exact Or.inl fun _ => rfl
  | insertJob | closeJob | reopenJob | keysForJob | deletePhoto | putObject | removeObject
  | rollback =>
    exact Or.inl (committed_eq h nofun).1

end Query

end Marketplace.Jobs
