import Marketplace.Jobs.Service

/-!
# Which queries a request issues

What a request may issue is read off its program once, for an arbitrary condition on queries, and
then used at two: that a request closes, reopens or inserts its own job only
(`Marketplace.Jobs.Call.Asks`), and that a transaction publishes with its last word.
-/

namespace Marketplace.Jobs

open Alerts (NewJob Ending)
open Audit (AuditEvent)
open Board (JobStatus)
open ReadCommitted

variable {setting : Setting} {φ : {β : Type} → Query β → Prop} {α : Type}

/-! ### The parts of programs -/

theorem each_record {m : Mode} {event : AuditEvent} (h : φ (.record m event)) :
    (record m event).run.Each φ := by
  refine ⟨h, fun id => ?_⟩
  cases id <;> trivial

theorem each_asPoster {poster id : Uuid} {p : Handling α} (h : p.run.Each φ) :
    (asPoster poster id p).run.Each φ := by
  intro owner
  show (if owner = some poster then p else throw .notFound).run.Each φ
  split
  · exact h
  · trivial

theorem each_ownedListing {userId contractorId : Uuid} {p : Handling α} (h : p.run.Each φ) :
    (ownedListing setting userId contractorId p).run.Each φ := by
  intro owned
  show (if owned = some contractorId then p else throw .notFound).run.Each φ
  split
  · exact h
  · trivial

theorem each_inTransaction {fault : Option ℕ} {p : Handling α} (hc : φ .commit)
    (hr : φ .rollback) (h : p.run.Each φ) : (inTransaction fault p).run.Each φ :=
  Action.each_transaction hc hr (Action.each_failAt h fault)

theorem each_deleteAllForJob {id : Uuid} (h : ∀ k, φ (.deletePhoto .job id k)) :
    (deleteAllForJob id).run.Each φ := by
  refine fun ids => Action.each_andThen (Action.each_ofProg (Prog.each_countEach ?_)) fun _ => trivial
  exact fun k => ⟨h k, fun _ => trivial⟩

theorem each_takeDown {id : Uuid} {status : JobStatus} (hkeys : φ (.keysForJob id))
    (h : status = .cancelled → ∀ k, φ (.deletePhoto .job id k)) :
    (takeDown id status).run.Each φ := by
  rw [takeDown]
  split
  · rename_i hcancelled
    refine ⟨hkeys, fun keys => Action.each_andThen ?_ fun _ => trivial⟩
    exact each_deleteAllForJob (h hcancelled)
  · trivial

theorem each_removeEach {keys : List Key} (h : ∀ key, φ (.removeObject key)) :
    (removeEach keys).run.Each φ := by
  refine Action.each_andThen (Action.each_ofProg (Prog.each_countEach ?_)) fun _ => trivial
  exact fun key => ⟨h key, fun _ => trivial⟩

theorem each_addPhoto {g : Gallery} {ownerId id : Uuid} {bytes : List UInt8} {full : AppError}
    {event : Normalised → AuditEvent} (hput : ∀ key, φ (.putObject key))
    (hinsert : ∀ photo : Photo, photo.ownerId = ownerId → φ (.insertPhoto g id photo))
    (hrecord : ∀ event, φ (.record .auto event)) :
    (addPhoto setting g ownerId id bytes full event).run.Each φ := by
  intro existing
  show (if existing ≥ g.cap then throw full else _ : Handling Added).run.Each φ
  split
  · trivial
  split
  · trivial
  refine Action.each_andThen ⟨hput _, fun stored => ?_⟩ fun _ => ?_
  · cases stored <;> trivial
  refine Action.each_andThen (fun position => ⟨hinsert _ rfl, fun inserted => ?_⟩) fun _ => ?_
  · cases inserted <;> trivial
  exact Action.each_andThen (each_record (hrecord _)) fun _ => trivial

theorem each_removeRow {g : Gallery} {ownerId id : Uuid} {event : AuditEvent}
    (hdelete : φ (.deletePhoto g ownerId id)) (hrecord : φ (.record .tx event)) :
    (removeRow g ownerId id event).run.Each φ := by
  refine ⟨hdelete, fun key => ?_⟩
  cases key with
  | none => trivial
  | some key => exact Action.each_andThen (each_record hrecord) fun _ => trivial

/-! ### The transactions -/

variable {poster id : Uuid} {requestId : Option Uuid}

theorem each_postRow {tradeSlug : Option Text} {job : NewJob}
    (hinsert : ∀ (new : NewJob) (now : Instant), new.postedByUserId = job.postedByUserId →
      φ (.insertJob id new now))
    (hrecord : ∀ event, φ (.record .tx event)) :
    (postRow setting poster id tradeSlug job requestId).run.Each φ := by
  rcases hlookup : lookupTrade setting tradeSlug with e | tradeId
  · simp only [postRow, hlookup]
    exact fun _ => trivial
  simp only [postRow, hlookup]
  refine fun now => ⟨hinsert _ _ rfl, fun inserted => ?_⟩
  cases inserted with
  | false => trivial
  | true =>
    refine Action.each_andThen (each_record (hrecord _)) fun _ stored => ?_
    cases stored <;> trivial

theorem each_reopenRow (hreopen : φ (.reopenJob id poster))
    (hrecord : ∀ event, φ (.record .tx event)) : (reopenRow poster id requestId).run.Each φ := by
  refine ⟨hreopen, fun changed => ?_⟩
  cases changed with
  | none => trivial
  | some _ => exact each_record (hrecord _)

theorem each_closeRow {status : Ending} (hclose : ∀ now, φ (.closeJob id poster status now))
    (hkeys : φ (.keysForJob id)) (hdelete : status.1 = .cancelled → ∀ k, φ (.deletePhoto .job id k))
    (hrecord : ∀ event, φ (.record .tx event)) :
    (closeRow poster id status requestId).run.Each φ := by
  refine fun now => ⟨hclose now, fun changed => ?_⟩
  cases changed with
  | none => trivial
  | some _ =>
    refine Action.each_andThen (each_takeDown hkeys hdelete) fun orphaned => ?_
    exact Action.each_andThen (each_record (hrecord _)) fun _ => trivial

/-! ### Requests -/

/-- The request is the one that a query on jobs is for. -/
def Call.Asks (call : Call) {β : Type} : Query β → Prop
  | .insertJob id _ _ => ∃ poster input, call.request = .post poster id input
  | .closeJob id poster status _ => call.request = .close poster id status.1
  | .reopenJob id poster => call.request = .reopen poster id
  | _ => True

/-- **A request inserts, closes or reopens the job that it names, and no other.** -/
theorem each_serve (call : Call) : (serve setting call).run.Each call.Asks := by
  obtain ⟨request, requestId, fault⟩ := call
  cases request with
  | post poster id input =>
    refine Action.each_andThen ?_ fun _ => trivial
    rw [post]
    split
    · trivial
    · exact each_inTransaction trivial trivial
        (each_postRow (fun _ _ _ => ⟨poster, input, rfl⟩) fun _ => trivial)
  | close poster id status =>
    refine Action.each_andThen ?_ fun _ => trivial
    rw [close]
    split
    · trivial
    · refine Action.each_andThen (each_inTransaction trivial trivial (each_asPoster ?_)) fun _ => ?_
      · exact each_closeRow (fun _ => rfl) trivial (fun _ _ => trivial) fun _ => trivial
      · exact each_removeEach fun _ => trivial
  | reopen poster id =>
    refine Action.each_andThen ?_ fun _ => trivial
    exact each_inTransaction trivial trivial (each_asPoster (each_reopenRow rfl fun _ => trivial))
  | attachPhoto poster jobId id bytes =>
    refine Action.each_andThen (Action.each_failAt (each_asPoster ?_) fault) fun _ => trivial
    exact each_addPhoto (fun _ => trivial) (fun _ _ => trivial) fun _ => trivial
  | removePhoto poster jobId id =>
    refine Action.each_andThen (Action.each_andThen ?_ fun _ => ?_) fun _ => trivial
    · exact each_inTransaction trivial trivial (each_asPoster (each_removeRow trivial trivial))
    · exact each_removeEach fun _ => trivial
  | addWorkPhoto userId contractorId id bytes =>
    refine Action.each_andThen (Action.each_failAt (each_ownedListing ?_) fault) fun _ => trivial
    exact each_addPhoto (fun _ => trivial) (fun _ _ => trivial) fun _ => trivial
  | removeWorkPhoto userId contractorId id =>
    refine Action.each_andThen (Action.each_andThen ?_ fun _ => ?_) fun _ => trivial
    · exact each_inTransaction trivial trivial (each_ownedListing (each_removeRow trivial trivial))
    · exact each_removeEach fun _ => trivial

/-! ### The last word -/

/-- The request is one about the life of a job. -/
def Call.isLifecycle (call : Call) : Bool :=
  match call.request with
  | .post _ _ _ => true
  | .close _ _ _ => true
  | .reopen _ _ => true
  | _ => false

/-- A transaction that is in order publishes with its last word. -/
theorem settles_inTransaction {fault : Option ℕ} {p : Handling α}
    (h : p.run.Each fun q => ¬ q.publishes) :
    (inTransaction fault p).run.Settles Query.publishes fun a => a.isOk = true :=
  Action.settles_transaction nofun (Action.each_failAt h fault)

/-- Removing objects does not fail. -/
theorem answers_removeEach {keys : List Key} :
    (removeEach keys).run.Answers fun a => a = .ok () := by
  rw [removeEach, Action.ofProg_bind]
  exact Prog.answers_bind fun _ => rfl

/-- A close publishes with its last word: what comes after is up to the store. -/
theorem settles_close {fault : Option ℕ} {status : JobStatus} :
    (close fault poster id status requestId).run.Settles Query.publishes
      fun a => a.isOk = true := by
  rw [close]
  split
  · trivial
  refine Action.settles_then (settles_inTransaction (each_asPoster ?_)) (fun _ => ?_) fun _ => ?_
  · exact each_closeRow (fun _ => nofun) nofun (fun _ _ => nofun) fun _ => nofun
  · exact each_removeEach fun _ => nofun
  · exact answers_removeEach.mono fun a ha => by rw [ha]; rfl

/-- **Posting, closing and reopening publish with their last word.** -/
theorem settles_serve (call : Call) :
    (serve setting call).run.Settles Query.publishes
      fun a => call.isLifecycle = true → a.isOk = true := by
  obtain ⟨request, requestId, fault⟩ := call
  cases request with
  | post poster id input =>
    refine Action.settles_then ?_ (fun _ => trivial) fun _ _ => rfl
    rw [post]
    split
    · trivial
    · exact settles_inTransaction (each_postRow (fun _ _ _ => nofun) fun _ => nofun)
  | close poster id status =>
    exact Action.settles_then settles_close (fun _ => trivial) fun _ _ => rfl
  | reopen poster id =>
    refine Action.settles_then ?_ (fun _ => trivial) fun _ _ => rfl
    exact settles_inTransaction (each_asPoster (each_reopenRow nofun fun _ => nofun))
  | attachPhoto | removePhoto | addWorkPhoto | removeWorkPhoto =>
    exact Prog.settles_of_forall fun _ => nofun

/-- **Closing a job without cancelling it is over once it has been published.** -/
theorem ends_close {fault : Option ℕ} :
    (close fault poster id .closed requestId).run.Ends Query.publishes := by
  rw [close, dif_neg nofun]
  -- there are no photographs to remove
  have hnone : (inTransaction fault (asPoster poster id
      (closeRow poster id ⟨.closed, nofun⟩ requestId))).run.Answers
        fun a => ∀ keys, a = .ok keys → keys = [] := by
    refine Action.answers_transaction (Prog.Answers.failAt ?_ fault fun _ => nofun)
    intro owner
    show Prog.Answers _ (if owner = some poster then _ else throw .notFound : Handling _).run
    split
    · intro now changed
      cases changed with
      | none => exact nofun
      | some _ =>
        intro id
        cases id with
        | none => exact nofun
        | some id =>
          rintro keys ⟨⟩
          rfl
    · exact nofun
  refine Prog.Ends.bind (Action.ends_transaction nofun ?_) hnone fun a ha => ?_
  · refine Action.each_failAt (each_asPoster ?_) fault
    exact each_closeRow (fun _ => nofun) nofun (fun _ _ => nofun) fun _ => nofun
  · cases a with
    | error e => exact ⟨_, rfl⟩
    | ok keys =>
      rw [ha keys rfl]
      exact ⟨_, rfl⟩

/-- A request to close a job without cancelling it is answered when that is published. -/
theorem ends_serve {call : Call} (h : call.request = .close poster id .closed) :
    (serve setting call).run.Ends Query.publishes := by
  obtain ⟨request, requestId, fault⟩ := call
  obtain rfl : request = .close poster id .closed := h
  refine Prog.Ends.bind ends_close (Prog.answers_of_forall fun _ => trivial) fun a _ => ?_
  cases a with
  | ok a => exact ⟨_, rfl⟩
  | error e => exact ⟨_, rfl⟩

end Marketplace.Jobs
