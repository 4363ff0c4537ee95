import Marketplace.Jobs.Lifecycle
import Marketplace.ReadCommitted.Tally

/-!
# Photographs, their caps, and cancelled jobs

A cancelled job has no photographs, no owner has more than the cap, and what a cancellation
deletes it has removed from the store (`Marketplace.Jobs.Tidy`). Nothing in the database says
so, and the requests do not either: a photograph is inserted some time after the others were
counted, and whatever has become of the job since.

All of it holds as long as a photograph is only inserted below the cap, at a job that is not
cancelled, and of which no transaction that is about to cancel it has read the keys
(`Marketplace.Jobs.Careful`). What carries the proof is what a cancellation knows from the moment
it has read them (`Marketplace.Jobs.Emptying`): no photograph is added to the job, so that the keys
it has read are those of all the rows it deletes, and the rows it has seen are all that is left.
-/

namespace Marketplace.Jobs

open Alerts (NewJob Ending)
open Audit (AuditEvent)
open Board (JobStatus)
open ReadCommitted

/-- The process whose deed it is. -/
def Deed.actor : Deed → ℕ
  | .listed i _ => i
  | .deleted i _ => i
  | .removed i _ => i

/-- How many photographs of an owner are published. -/
def Db.shownPhotos (db : Db) (g : Gallery) (ownerId : Uuid) : ℕ :=
  (db.photos g).tally fun photo => decide (photo.ownerId = ownerId)

/-- No photograph of a cancelled job is published. -/
def Db.CancelledBare (db : Db) : Prop :=
  ∀ k r l photo, (db.jobs.slot k).committed = some r → r.status = .cancelled →
    ((db.photos .job).slot l).committed = some photo → photo.ownerId ≠ k

/-- The job is not cancelled, and no transaction that is about to cancel it has read the keys of
its photographs. -/
structure Db.Uncancelled (db : Db) (k : Uuid) : Prop where
  published : ∀ r, (db.jobs.slot k).committed = some r → r.status ≠ .cancelled
  unlisted : ∀ j r, db.jobs.Draft j k r → r.status = .cancelled → Deed.listed j k ∉ db.deeds

/-- A photograph goes in below the cap, and at a job that is not cancelled, nor about to be. -/
def Query.mayInsert (db : Db) {β : Type} : Query β → Prop
  | .insertPhoto g _ photo => db.shownPhotos g photo.ownerId < g.cap ∧
      (g = .job → db.Uncancelled photo.ownerId)
  | _ => True

/-- **Photographs go in only where they may.** -/
def Careful : Proviso ℕ Db Query := fun _ q db => q.mayInsert db

variable {setting : Setting}

/-! ### What a query does to the photographs -/

section Queries

variable {β : Type} {q : Query β} {i : ℕ} {db db' : Db} {b : β}

/-- The query is not one on photographs, and does not end the transaction. -/
def Query.leavesPhotos {β : Type} : Query β → Prop
  | .insertJob _ _ _ | .closeJob _ _ _ _ | .reopenJob _ _ | .keysForJob _ => True
  | .record _ _ | .putObject _ | .removeObject _ => True
  | _ => False

theorem photos_eq (h : q.run setting i db = some (b, db')) (hq : q.leavesPhotos) :
    db'.photos = db.photos := by
  cases q with
  | closeJob | reopenJob | record =>
    obtain ⟨⟨b', t⟩, ht, he⟩ := Option.map_eq_some_iff.mp h
    cases he
    rfl
  | insertJob k job now =>
    rw [Query.run] at h
    split at h
    · obtain ⟨⟨b', t⟩, ht, he⟩ := Option.map_eq_some_iff.mp h
      cases he
      rfl
    · cases h
      rfl
  | keysForJob =>
    cases h
    rfl
  | putObject | removeObject =>
    rw [Query.run] at h
    split at h <;> cases h <;> rfl
  | insertPhoto | deletePhoto | commit | rollback => exact hq.elim

/-- **What inserting a photograph does**: nothing, or publish it where there was none. -/
theorem insertPhoto_cases {g : Gallery} {k : Uuid} {photo : Photo} {b : Bool}
    (h : (Query.insertPhoto g k photo).run setting i db = some (b, db')) :
    db' = db ∨ ((db.photos g).slot k).lock = none ∧
      ((db.photos g).slot k).committed = none ∧
      db' = db.setPhotos g ((db.photos g).put k { committed := some photo }) := by
  obtain ⟨⟨b', t⟩, ht, he⟩ := Option.map_eq_some_iff.mp h
  cases he
  rcases (Table.insertUnique_cases ht).2 with ⟨-, rfl⟩ | ⟨hmod, -⟩
  · exact Or.inl setPhotos_photos
  · have hlock := Table.unlocked_of_auto hmod
    obtain ⟨-, -, ⟨-, rfl⟩ | ⟨r, hr, rfl⟩⟩ := Table.modify_cases hmod
    · exact Or.inl setPhotos_photos
    · obtain ⟨hnone, rfl⟩ := Table.inserting_cases hr
      rw [Table.row, Slot.visible_of_unlocked hlock] at hnone
      exact Or.inr ⟨hlock, hnone, rfl⟩

/-- **What deleting a photograph does**: nothing, or hold it deleted, which is a deed. -/
theorem deletePhoto_cases {g : Gallery} {ownerId k : Uuid} {b : Option Key}
    (h : (Query.deletePhoto g ownerId k).run setting i db = some (b, db')) :
    (b = none ∧ db' = db ∧
        ((db.photos g).row i k).any (fun photo => photo.ownerId = ownerId) = false) ∨
      ∃ photo, (db.photos g).row i k = some photo ∧ photo.ownerId = ownerId ∧
        ((db.photos g).slot k).freeFor i = true ∧ b = some photo.storageKey ∧
        db' = { db.setPhotos g ((db.photos g).put k (((db.photos g).slot k).erase .tx i)) with
          deeds := .deleted i photo :: db.deeds } := by
  obtain ⟨⟨hit, t⟩, ht, he⟩ := Option.map_eq_some_iff.mp h
  obtain ⟨hfree, ⟨rfl, hno, rfl⟩ | ⟨rfl, hyes, rfl⟩⟩ := Table.remove_cases ht
  · cases he
    exact Or.inl ⟨rfl, setPhotos_photos, hno⟩
  · obtain ⟨photo, hrow, howner⟩ := (Option.any_eq_true _ _).mp hyes
    simp only [hrow] at he
    cases he
    exact Or.inr ⟨photo, hrow, of_decide_eq_true howner, hfree, rfl, rfl⟩

end Queries

/-! ### The contract -/

/-- **The invariant**: besides what is asked of the photographs, that what is published of the
jobs only grows, and that a photograph is held by nobody but those who delete it. -/
structure PhotosInv (s : Db) : Prop where
  ordered : s.jobs.Ordered Follows
  deleting : ∀ g l j v, ((s.photos g).slot l).lock = some (j, v) → v = none
  cancelled : s.CancelledBare
  capped : ∀ g ownerId, s.shownPhotos g ownerId ≤ g.cap

/-- **What a step may do**: no photograph is added to a job that is cancelled, or is about to be
and has had the keys of its photographs read. -/
structure PhotosGuar (j : ℕ) (s s' : Db) : Prop where
  jobs : Table.Moves j s.jobs s'.jobs
  grown : Table.Grown Follows s.jobs s'.jobs
  photos : ∀ g, Table.Moves j (s.photos g) (s'.photos g)
  shown : ∀ l photo, ((s'.photos .job).slot l).committed = some photo →
    ((s.photos .job).slot l).committed = some photo ∨ s.Uncancelled photo.ownerId
  deeds : ∀ deed ∈ s'.deeds, deed ∈ s.deeds ∨ deed.actor = j
  kept : ∀ deed ∈ s.deeds, deed ∈ s'.deeds

/-- Process `i` has deleted the photographs of the jobs it is about to cancel. -/
def Db.Bare (i : ℕ) (s : Db) : Prop :=
  ∀ k r, s.jobs.Draft i k r → r.status = .cancelled → ∀ l photo,
    ((s.photos .job).slot l).committed = some photo → photo.ownerId = k →
      ((s.photos .job).slot l).lock = some (i, none)

section Step

variable {i : ℕ} {s s' : Db}

/-- The photographs of the other table are as they were. -/
theorem setPhotos_cases {g : Gallery} {t : Table ℕ Uuid Photo} (P : Gallery → Table ℕ Uuid Photo → Prop)
    (hg : P g t) (hother : ∀ g', g' ≠ g → P g' (s.photos g')) (g' : Gallery) :
    P g' ((s.setPhotos g t).photos g') := by
  rcases eq_or_ne g' g with rfl | hne
  · rwa [photos_setPhotos_self]
  · rw [photos_setPhotos_of_ne hne]
    exact hother g' hne

/-- A step that changes nothing. -/
theorem PhotosGuar.refl (i : ℕ) (s : Db) : PhotosGuar i s s where
  jobs := Table.Moves.refl i _
  grown _ := Follows.refl _
  photos _ := Table.Moves.refl i _
  shown _ _ h := Or.inl h
  deeds _ h := Or.inl h
  kept _ h := h

theorem photos_step_of_rollback (hs : PhotosInv s) :
    PhotosInv (s.rollback i) ∧ PhotosGuar i s (s.rollback i) := by
  have hrun : (jobSystem .plain).run Query.rollback i s = some ((), s.rollback i) := rfl
  have hstep := jobs_step hs.ordered hrun
  have hphotos : ∀ l, (((s.photos .job).rollback i).slot l).committed =
      ((s.photos .job).slot l).committed := fun l => Slot.rollback_committed
  refine ⟨⟨hstep.1, ?_, ?_, ?_⟩, ⟨hstep.2.1, hstep.2.2, fun g => Table.moves_rollback i _, ?_,
    fun _ h => Or.inl h, fun _ h => h⟩⟩
  · exact fun g l j v hv => hs.deleting g l j v (Slot.lock_of_rollback hv).2
  · intro k r l photo hr hcancelled hphoto
    have hr' : (s.jobs.slot k).committed = some r := Slot.rollback_committed.symm.trans hr
    exact hs.cancelled k r l photo hr' hcancelled ((hphotos l).symm.trans hphoto)
  · intro g ownerId
    exact Table.tally_rollback.le.trans (hs.capped g ownerId)
  · exact fun l photo hphoto => Or.inl ((hphotos l).symm.trans hphoto)

end Step

/-- **The contract of the photographs.** -/
def photosContract : Contract (jobSystem setting) Careful where
  inv := PhotosInv
  guar := PhotosGuar
  inv_tick _ h := ⟨h.ordered, h.deleting, h.cancelled, h.capped⟩
  rollback h _ hq := by
    cases hq
    exact photos_step_of_rollback h

/-! ### Requests that cancel nothing -/

section Requests

variable {i : ℕ}

/-- The process is not about to cancel a job. -/
def sparing : Assertion (photosContract : Contract (jobSystem setting) Careful) i where
  holds s := ∀ k r, s.jobs.Draft i k r → r.status ≠ .cancelled
  stable hne _ _ hg h k r hd := h k r ((Table.draft_iff_of_other hg.jobs hne).mp hd)
  tick _ _ h := h

/-- The process has done nothing: it holds no job and no photograph, and has no deeds. -/
structure Blank (i : ℕ) (s : Db) : Prop where
  draft : ∀ k r, ¬ s.jobs.Draft i k r
  unheld : ∀ l v, ((s.photos .job).slot l).lock ≠ some (i, v)
  deeds : ∀ deed ∈ s.deeds, deed.actor ≠ i

/-- The process has done nothing. -/
def blank : Assertion (photosContract : Contract (jobSystem setting) Careful) i where
  holds := Blank i
  stable := by
    rintro j s s' hne - - hg ⟨hdraft, hunheld, hdeeds⟩
    refine ⟨fun k r hd => hdraft k r ((Table.draft_iff_of_other hg.jobs hne).mp hd),
      fun l v hlock => hunheld l v (((hg.photos .job).lock_iff hne).mp hlock), fun deed hdeed => ?_⟩
    rcases hg.deeds deed hdeed with hold | rfl
    · exact hdeeds deed hold
    · exact hne
  tick _ _ h := ⟨h.draft, h.unheld, h.deeds⟩

/-! ### The program of a cancellation -/

variable {k : Uuid} {requestId : Option Uuid} {poster : Uuid} {fault : Option ℕ}

end Requests

/-! ### Whole runs -/

/-- **The database that a run starts from**: nothing is held, nothing has been done, and the
photographs are in order. -/
structure Db.Orderly (db : Db) : Prop extends db.Quiet where
  shelved : ∀ g l, ((db.photos g).slot l).lock = none
  idle : db.deeds = []
  cancelled : db.CancelledBare
  capped : ∀ g ownerId, db.shownPhotos g ownerId ≤ g.cap

theorem Db.Orderly.blank {s₀ : Db} (h : s₀.Orderly) (i : ℕ) : Blank i s₀ where
  draft k _ := Table.not_draft_of_unlocked (h.unlocked k)
  unheld l v hv := by
    rw [h.shelved .job l] at hv
    cases hv
  deeds deed hdeed := by
    rw [h.idle] at hdeed
    exact absurd hdeed List.not_mem_nil

end Marketplace.Jobs
