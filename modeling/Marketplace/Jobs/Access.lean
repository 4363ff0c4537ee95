import Marketplace.Jobs.Photos
import Marketplace.ReadCommitted.Authorship

/-!
# Whose jobs and photographs are written

A job is written by its poster, and its photographs are the poster's to add and to remove; those of
a listing are its owner's. Statements on jobs say so themselves. Statements on photographs do not:
who may is found out by looking at the job first, and a job keeps its poster.
-/

namespace Marketplace.Jobs

open Alerts (NewJob Ending)
open Board (JobStatus)
open ReadCommitted

variable {setting : Setting} {β α : Type} {i : ℕ} {db db' : Db} {k l u : Uuid} {g : Gallery}
  {photo : Photo}

/-! ### Posters -/

/-- Account `u` has posted job `k`. -/
def Db.PostedBy (k u : Uuid) (db : Db) : Prop :=
  ∃ r, (db.jobs.slot k).committed = some r ∧ r.postedByUserId = u

/-- The request posts a job. -/
def Request.isPost : Request → Bool
  | .post _ _ _ => true
  | _ => false

/-- A query that inserts no job. -/
def Query.postsNothing {β : Type} : Query β → Prop
  | .insertJob _ _ _ => False
  | _ => True

section Runs

variable {s₀ : Db} {c d : Config ℕ Db Call (Except AppError Response) Query}

/-- A job keeps its poster. -/
theorem postedBy_of_step (h₀ : s₀.Quiet)
    (hc : Reachable (jobSystem setting) anyQuery (.initial s₀) c)
    (hstep : Step (jobSystem setting) anyQuery c d) (h : c.db.PostedBy k u) : d.db.PostedBy k u := by
  obtain ⟨r, hr, hu⟩ := h
  obtain ⟨r', hr', hposter, -⟩ := follows_of_reachable h₀ hc (.single hstep) k r hr
  exact ⟨r', hr', hposter.trans hu⟩

/-- **Whoever finds out that it has posted a job has posted it.** -/
theorem postedBy_of_row (h₀ : s₀.Quiet)
    (hc : Reachable (jobSystem setting) anyQuery (.initial s₀) c) {call : Call}
    {p : Prog ℕ Db Query (Except AppError Response)} (hi : c.procs i = .running call p)
    (hpost : call.request.isPost = false)
    (hrow : (c.db.jobs.row i k).map (fun r => r.postedByUserId) = some u) : c.db.PostedBy k u := by
  have hauthority : Authority (jobSystem setting) anyQuery s₀ (fun db => db.jobs.slot k)
      (Option.map fun r => r.postedByUserId) fun call _ => call.request.isPost = true := by
    refine .of_guarded (J := fun _ _ _ => True) (φ := fun _ {_} q => q.postsNothing)
      (h₀.unlocked k) (fun q i s b s' hr => (Query.jobs_effect hr).moves k)
      (fun i s s' hr => by cases hr; rfl) (fun s n => rfl) (fun i call => ?_) (fun _ _ => trivial)
      (fun _ _ h => h) fun q i call s b s' hq hr => (Query.jobs_effect hr).reads fun o r hwrites => ?_
    · cases hposts : call.request.isPost with
      | true => exact Or.inr fun _ => rfl
      | false =>
        refine Or.inl (Prog.guarded_of_each ((each_serve call).mono fun q hasks => ?_))
        cases q with
        | insertJob id job now =>
          obtain ⟨poster, input, hrequest⟩ := hasks
          rw [hrequest] at hposts
          cases hposts
        | closeJob | reopenJob | insertPhoto | keysForJob | deletePhoto | record | putObject
        | removeObject | commit | rollback => trivial
    · cases q with
      | insertJob => exact hq.elim
      | closeJob id poster status now =>
        obtain ⟨-, r₀, rfl, hclose⟩ := hwrites
        obtain ⟨hr₀, -, hr', -⟩ := JobRow.close_eq hclose
        exact congrArg some (hr'.trans hr₀.symm)
      | reopenJob id poster =>
        obtain ⟨-, r₀, rfl, hreopen⟩ := hwrites
        obtain ⟨hr₀, -, hr', -⟩ := JobRow.reopen_eq hreopen
        exact congrArg some (hr'.trans hr₀.symm)
      | insertPhoto | keysForJob | deletePhoto | record | putObject | removeObject | commit
      | rollback => exact hwrites.elim
  rcases hauthority.rightful hc i with hfaithful | ⟨call', p', hi', hmay⟩
  · obtain ⟨r, hr, hu⟩ := Option.map_eq_some_iff.mp (hfaithful.visible.symm.trans hrow)
    exact ⟨r, hr, hu⟩
  · rw [hi] at hi'
    cases hi'
    rw [hpost] at hmay
    cases hmay

end Runs

/-! ### What is shown -/

/-- What may be shown: a job as it stands, or a photograph. -/
inductive Item
  /-- Job `k` reads `r`. -/
  | job (k : Uuid) (r : JobRow)
  /-- Row `l` of a gallery is the photograph. -/
  | photo (g : Gallery) (l : Uuid) (photo : Photo)

/-- The item is published. -/
def Db.Shows (db : Db) : Item → Prop
  | .job k r => (db.jobs.slot k).committed = some r
  | .photo g l photo => ((db.photos g).slot l).committed = some photo

/-- **The request is one that may show the item, or no longer**: a job is posted, closed and
reopened in the name of its poster, and cancelling it hides its photographs; otherwise a photograph
is named together with the job or the listing that it belongs to. -/
def Request.Concerns : Item → Request → Prop
  | .job k r, .post poster id _ | .job k r, .close poster id _ | .job k r, .reopen poster id =>
    id = k ∧ r.postedByUserId = poster
  | .photo g _ photo, .close _ id status => g = .job ∧ photo.ownerId = id ∧ status = .cancelled
  | .photo g l photo, .attachPhoto _ jobId id _ | .photo g l photo, .removePhoto _ jobId id =>
    g = .job ∧ photo.ownerId = jobId ∧ id = l
  | .photo g l photo, .addWorkPhoto _ contractorId id _
  | .photo g l photo, .removeWorkPhoto _ contractorId id =>
    g = .contractor ∧ photo.ownerId = contractorId ∧ id = l
  | _, _ => False

/-- **The caller has the right to**: it has posted the job, or owns the listing. -/
def Request.Entitled (setting : Setting) (db : Db) : Request → Prop
  | .post _ _ _ => True
  | .close poster id _ | .reopen poster id | .attachPhoto poster id _ _ | .removePhoto poster id _ =>
    db.PostedBy id poster
  | .addWorkPhoto userId contractorId _ _ | .removeWorkPhoto userId contractorId _ =>
    setting.claimedBy userId = some contractorId

/-- A query that leaves the item shown if it is, and hidden if it is not. -/
def Query.Spares {β : Type} : Item → Query β → Prop
  | .job k r, .insertJob id job _ => ¬ (id = k ∧ r.postedByUserId = job.postedByUserId)
  | .job k r, .closeJob id poster _ _ | .job k r, .reopenJob id poster =>
    ¬ (id = k ∧ r.postedByUserId = poster)
  | .photo g l photo, .insertPhoto g' id new => ¬ (g = g' ∧ id = l ∧ photo = new)
  | .photo g l photo, .deletePhoto g' ownerId id => ¬ (g = g' ∧ photo.ownerId = ownerId ∧ id = l)
  | _, _ => True

/-- A query that spares a job as it stands neither writes it nor over it. -/
theorem spares_job {q : Query β} {r : JobRow} (hq : q.Spares (.job k r)) {o : Option JobRow}
    {r' : JobRow} (h : q.writesJob i k o r') : (some r' = some r) = (o = some r) := by
  cases q with
  | insertJob id job now =>
    obtain ⟨rfl, rfl, rfl⟩ := h
    refine propext (iff_of_false (fun he => hq ⟨rfl, ?_⟩) nofun)
    rw [← Option.some.inj he]
    rfl
  | closeJob id poster status now =>
    obtain ⟨rfl, r₀, rfl, hclose⟩ := h
    obtain ⟨hold, -, hnew, -⟩ := JobRow.close_eq hclose
    refine propext (iff_of_false (fun he => hq ⟨rfl, ?_⟩) fun he => hq ⟨rfl, ?_⟩)
    · rw [← Option.some.inj he, hnew]
    · rw [← Option.some.inj he, hold]
  | reopenJob id poster =>
    obtain ⟨rfl, r₀, rfl, hreopen⟩ := h
    obtain ⟨hold, -, hnew, -⟩ := JobRow.reopen_eq hreopen
    refine propext (iff_of_false (fun he => hq ⟨rfl, ?_⟩) fun he => hq ⟨rfl, ?_⟩)
    · rw [← Option.some.inj he, hnew]
    · rw [← Option.some.inj he, hold]
  | insertPhoto | keysForJob | deletePhoto | record | putObject | removeObject | commit
  | rollback => exact h.elim

/-! ### Photographs -/

/-- What a query does to the row of a photograph is a move of its process. -/
theorem photos_move {q : Query β} {b : β} (hr : q.run setting i db = some (b, db')) (g : Gallery)
    (l : Uuid) : Slot.Move i ((db.photos g).slot l) ((db'.photos g).slot l) := by
  cases q with
  | insertPhoto g' id new =>
    rcases insertPhoto_cases hr with rfl | ⟨hlock, -, rfl⟩
    · exact .stay _
    refine setPhotos_cases (fun g t => Slot.Move i ((db.photos g).slot l) (t.slot l)) ?_
      (fun _ _ => .stay _) g
    exact Table.moves_put (.autocommit (Slot.freeFor_iff.mpr fun j v hv => by
      rw [hlock] at hv
      cases hv) _) l
  | deletePhoto g' ownerId id =>
    rcases deletePhoto_cases hr with ⟨-, rfl, -⟩ | ⟨photo, -, -, hfree, -, rfl⟩
    · exact .stay _
    · exact setPhotos_cases (fun g t => Slot.Move i ((db.photos g).slot l) (t.slot l))
        (Table.moves_put (.write hfree none) l) (fun _ _ => .stay _) g
  | insertJob | closeJob | reopenJob | keysForJob | record | putObject | removeObject =>
    rw [photos_eq hr trivial]
    exact .stay _
  | commit =>
    cases hr
    exact Table.moves_commit i _ l
  | rollback =>
    cases hr
    exact Table.moves_rollback i _ l

/-- **What a query that spares a photograph does to its row.** -/
theorem spares_photo {q : Query β} {b : β} (hq : q.Spares (.photo g l photo))
    (hr : q.run setting i db = some (b, db')) :
    ((((db'.photos g).slot l).visible i = some photo) =
        (((db.photos g).slot l).visible i = some photo)) ∨
      (db'.photos g).slot l = ((db.photos g).slot l).rollback i := by
  cases q with
  | insertPhoto g' id new =>
    rcases insertPhoto_cases hr with rfl | ⟨hlock, hnone, rfl⟩
    · exact Or.inl rfl
    rcases eq_or_ne g g' with rfl | hg
    · rw [photos_setPhotos_self]
      rcases eq_or_ne l id with rfl | hne
      · -- the row that goes in is another photograph, and there was none before
        rw [Table.slot_put_self, Slot.visible_of_unlocked hlock, hnone]
        refine Or.inl (propext (iff_of_false (fun he => hq ⟨rfl, rfl, ?_⟩) nofun))
        exact (Option.some.inj he).symm
      · rw [Table.slot_put_of_ne hne]
        exact Or.inl rfl
    · rw [photos_setPhotos_of_ne hg]
      exact Or.inl rfl
  | deletePhoto g' ownerId id =>
    rcases deletePhoto_cases hr with ⟨-, rfl, -⟩ | ⟨old, hrow, howner, hfree, -, rfl⟩
    · exact Or.inl rfl
    refine Or.inl ?_
    refine setPhotos_cases (fun g'' t => g'' = g → ((t.slot l).visible i = some photo) =
      (((db.photos g'').slot l).visible i = some photo)) ?_ (fun _ _ _ => rfl) g rfl
    rintro rfl
    rcases eq_or_ne l id with rfl | hne
    · -- the row that goes is another photograph
      have hseen : ((db.photos g').slot l).visible i = some old := hrow
      rw [Table.slot_put_self, hseen, Slot.erase, Slot.visible_write]
      refine propext (iff_of_false nofun fun he => hq ⟨rfl, ?_, rfl⟩)
      rw [← Option.some.inj he, howner]
    · rw [Table.slot_put_of_ne hne]
  | insertJob | closeJob | reopenJob | keysForJob | record | putObject | removeObject =>
    rw [photos_eq hr trivial]
    exact Or.inl rfl
  | commit =>
    cases hr
    exact Or.inl (congrArg (· = some photo) (Table.row_commit (t := db.photos g)))
  | rollback =>
    cases hr
    exact Or.inr rfl

/-! ### Requests -/

variable {item : Item}

/-- What a process may rely on when it looks for the poster of a job. -/
def Looks (i : ℕ) (call : Call) (db : Db) : Prop :=
  call.request.isPost = false → ∀ k u,
    (db.jobs.row i k).map (fun r => r.postedByUserId) = some u → db.PostedBy k u

/-- A post is made in the name of the caller. -/
theorem postedBy_of_check {poster : Uuid} {input : PostJob} {job : NewJob}
    (h : input.check poster = .ok job) : job.postedByUserId = poster := by
  simp only [PostJob.check, bind, Except.bind, pure, Except.pure, throw, throwThe,
    MonadExceptOf.throw] at h
  -- every check fails, or lets the post pass
  repeat' split at h
  all_goals cases h
  rfl

/-- A query about other things spares them all. -/
theorem spares_commit : Query.commit.Spares item := by cases item <;> trivial

theorem spares_rollback : Query.rollback.Spares item := by cases item <;> trivial

theorem spares_record {m : Mode} (event : Audit.AuditEvent) : (Query.record m event).Spares item := by
  cases item <;> trivial

theorem spares_keysForJob {id : Uuid} : (Query.keysForJob id).Spares item := by
  cases item <;> trivial

theorem spares_putObject (key : Key) : (Query.putObject key).Spares item := by
  cases item <;> trivial

theorem spares_removeObject (key : Key) : (Query.removeObject key).Spares item := by
  cases item <;> trivial

/-- **A request that does not concern an item spares it.** -/
theorem each_spares {call : Call} (h : ¬ call.request.Concerns item) :
    (serve setting call).run.Each fun {_} q => q.Spares item := by
  obtain ⟨request, requestId, fault⟩ := call
  cases request with
  | post poster id input =>
    refine Action.each_andThen ?_ fun _ => trivial
    rw [post]
    split
    · trivial
    · rename_i job hcheck
      refine each_inTransaction spares_commit spares_rollback (each_postRow ?_ spares_record)
      intro new now hposter
      cases item with
      | job k r => exact fun he => h ⟨he.1, he.2.trans (hposter.trans (postedBy_of_check hcheck))⟩
      | photo => trivial
  | close poster id status =>
    refine Action.each_andThen ?_ fun _ => trivial
    rw [close]
    split
    · trivial
    · refine Action.each_andThen (each_inTransaction spares_commit spares_rollback (each_asPoster ?_))
        fun _ => each_removeEach spares_removeObject
      refine each_closeRow (fun now => ?_) spares_keysForJob (fun hcancelled l => ?_) spares_record
      · cases item with
        | job k r => exact h
        | photo => trivial
      · cases item with
        | job => trivial
        | photo g l photo => exact fun he => h ⟨he.1, he.2.1, hcancelled⟩
  | reopen poster id =>
    refine Action.each_andThen ?_ fun _ => trivial
    refine each_inTransaction spares_commit spares_rollback
      (each_asPoster (each_reopenRow ?_ spares_record))
    cases item with
    | job k r => exact h
    | photo => trivial
  | attachPhoto poster jobId id bytes =>
    refine Action.each_andThen (Action.each_failAt (each_asPoster ?_) fault) fun _ => trivial
    refine each_addPhoto spares_putObject (fun new hnew => ?_) spares_record
    cases item with
    | job => trivial
    | photo g l photo =>
      rintro ⟨hg, hl, rfl⟩
      exact h ⟨hg, hnew, hl⟩
  | removePhoto poster jobId id =>
    refine Action.each_andThen (Action.each_andThen ?_ fun _ => each_removeEach spares_removeObject)
      fun _ => trivial
    refine each_inTransaction spares_commit spares_rollback
      (each_asPoster (each_removeRow ?_ (spares_record _)))
    cases item with
    | job => trivial
    | photo g l photo => exact h
  | addWorkPhoto userId contractorId id bytes =>
    refine Action.each_andThen (Action.each_failAt (each_ownedListing ?_) fault) fun _ => trivial
    refine each_addPhoto spares_putObject (fun new hnew => ?_) spares_record
    cases item with
    | job => trivial
    | photo g l photo =>
      rintro ⟨hg, hl, rfl⟩
      exact h ⟨hg, hnew, hl⟩
  | removeWorkPhoto userId contractorId id =>
    refine Action.each_andThen (Action.each_andThen ?_ fun _ => each_removeEach spares_removeObject)
      fun _ => trivial
    refine each_inTransaction spares_commit spares_rollback
      (each_ownedListing (each_removeRow ?_ (spares_record _)))
    cases item with
    | job => trivial
    | photo g l photo => exact h

/-- Only the poster goes on. -/
theorem guarded_asPoster {J A : Db → Prop} {φ : {β : Type} → Query β → Prop} {poster id : Uuid}
    {p : Handling α} (h : ∀ s, J s →
      (s.jobs.row i id).map (fun r => r.postedByUserId) = some poster → A s) :
    (asPoster poster id p).run.Guarded i J A φ := by
  refine Action.guarded_look fun s owner hs howner => ?_
  split
  · rename_i hposter
    exact Or.inr (h s hs (howner.trans hposter))
  · exact Or.inl trivial

/-- Only the owner of a listing goes on. -/
theorem guarded_ownedListing {J A : Db → Prop} {φ : {β : Type} → Query β → Prop}
    {userId contractorId : Uuid} {p : Handling α}
    (h : ∀ s, setting.claimedBy userId = some contractorId → A s) :
    (ownedListing setting userId contractorId p).run.Guarded i J A φ := by
  refine Action.guarded_look fun s owned _ howned => ?_
  split
  · rename_i hlisting
    exact Or.inr (h s (howned.trans hlisting))
  · exact Or.inl trivial

/-- A transaction finds out what its body does. -/
theorem guarded_inTransaction {J A : Db → Prop} {p : Handling α} {fault : Option ℕ}
    (h : p.run.Guarded i J A fun {_} q => q.Spares item) :
    (inTransaction fault p).run.Guarded i J A fun {_} q => q.Spares item := by
  refine (h.failAt fault).bind fun a => ?_
  cases a with
  | ok _ => exact ⟨spares_commit, fun _ => trivial⟩
  | error _ => exact ⟨spares_rollback, fun _ => trivial⟩

/-- **A request finds out that it may change an item before it does**, or may anyway. -/
theorem guarded_serve (call : Call) :
    (serve setting call).run.Guarded i (Looks i call)
        (fun db => call.request.Concerns item ∧ call.request.Entitled setting db)
        (fun {_} q => q.Spares item) ∨
      ∀ db, call.request.Concerns item ∧ call.request.Entitled setting db := by
  by_cases hconcerns : call.request.Concerns item
  swap
  · exact Or.inl (Prog.guarded_of_each (each_spares hconcerns))
  obtain ⟨request, requestId, fault⟩ := call
  cases request with
  | post => exact Or.inr fun _ => ⟨hconcerns, trivial⟩
  | close poster id status =>
    refine Or.inl (Prog.Guarded.bind ?_ fun a => by cases a <;> trivial)
    rw [close]
    split
    · trivial
    · refine Prog.Guarded.bind (guarded_inTransaction (guarded_asPoster fun s hs howner =>
        ⟨hconcerns, hs rfl id poster howner⟩)) fun a => ?_
      cases a with
      | ok _ => exact each_removeEach spares_removeObject
      | error _ => trivial
  | reopen poster id =>
    refine Or.inl (Prog.Guarded.bind ?_ fun a => by cases a <;> trivial)
    exact guarded_inTransaction (guarded_asPoster fun s hs howner =>
      ⟨hconcerns, hs rfl id poster howner⟩)
  | attachPhoto poster jobId id bytes =>
    refine Or.inl (Prog.Guarded.bind (Prog.Guarded.failAt ?_ fault) fun a => by cases a <;> trivial)
    exact guarded_asPoster fun s hs howner => ⟨hconcerns, hs rfl jobId poster howner⟩
  | removePhoto poster jobId id =>
    refine Or.inl (Prog.Guarded.bind (Prog.Guarded.bind (guarded_inTransaction (guarded_asPoster
      fun s hs howner => ⟨hconcerns, hs rfl jobId poster howner⟩)) fun a => ?_)
        fun a => by cases a <;> trivial)
    cases a with
    | ok _ => exact each_removeEach spares_removeObject
    | error _ => trivial
  | addWorkPhoto userId contractorId id bytes =>
    refine Or.inl (Prog.Guarded.bind (Prog.Guarded.failAt ?_ fault) fun a => by cases a <;> trivial)
    exact guarded_ownedListing fun s howned => ⟨hconcerns, howned⟩
  | removeWorkPhoto userId contractorId id =>
    refine Or.inl (Prog.Guarded.bind (Prog.Guarded.bind (guarded_inTransaction (guarded_ownedListing
      fun s howned => ⟨hconcerns, howned⟩)) fun a => ?_) fun a => by cases a <;> trivial)
    cases a with
    | ok _ => exact each_removeEach spares_removeObject
    | error _ => trivial

/-! ### Whole runs -/

section Runs

variable {s₀ : Db} {c d : Config ℕ Db Call (Except AppError Response) Query}

/-- A right is never lost. -/
theorem entitled_of_step (h₀ : s₀.Quiet)
    (hc : Reachable (jobSystem setting) anyQuery (.initial s₀) c)
    (hstep : Step (jobSystem setting) anyQuery c d) {r : Request} (h : r.Entitled setting c.db) :
    r.Entitled setting d.db := by
  cases r with
  | post | addWorkPhoto | removeWorkPhoto => exact h
  | close | reopen | attachPhoto | removePhoto => exact postedBy_of_step h₀ hc hstep h

/-- **Jobs and photographs are written by those whose they are.** In every interleaving, a step that
shows an item that was not shown, or hides one that was, is a query of a process whose request is
about that item, and whose caller has posted the job, or owns the listing. -/
theorem item_changed (setting : Setting) (h₀ : s₀.Quiet)
    (hshelved : ∀ g l, ((s₀.photos g).slot l).lock = none)
    (hc : Reachable (jobSystem setting) anyQuery (.initial s₀) c)
    (hstep : Step (jobSystem setting) anyQuery c d) {item : Item}
    (hne : d.db.Shows item ≠ c.db.Shows item) :
    ∃ i call, c.Issues (jobSystem setting) i call d ∧ call.request.Concerns item ∧
      call.request.Entitled setting c.db := by
  have hlooks : ∀ {c : Config ℕ Db Call (Except AppError Response) Query} {i : ℕ} {call : Call}
      {p : Prog ℕ Db Query (Except AppError Response)},
      Reachable (jobSystem setting) anyQuery (.initial s₀) c → c.procs i = .running call p →
        Looks i call c.db :=
    fun hc hi hpost k u hrow => postedBy_of_row h₀ hc hi hpost hrow
  cases item with
  | job k r =>
    have hauthority : Authority (jobSystem setting) anyQuery s₀ (fun db => db.jobs.slot k)
        (fun o => o = some r) fun call db =>
          call.request.Concerns (.job k r) ∧ call.request.Entitled setting db :=
      .of_guarded (h₀.unlocked k) (fun q i s b s' hr => (Query.jobs_effect hr).moves k)
        (fun i s s' hr => by cases hr; rfl) (fun s n => rfl) (fun i call => guarded_serve call)
        hlooks (fun hc hstep h => ⟨h.1, entitled_of_step h₀ hc hstep h.2⟩)
        fun q i call s b s' hq hr =>
          (Query.jobs_effect hr).reads (f := fun o => o = some r) fun o r' => spares_job hq
    exact hauthority.changed hc hstep hne
  | photo g l photo =>
    have hauthority : Authority (jobSystem setting) anyQuery s₀ (fun db => (db.photos g).slot l)
        (fun o => o = some photo) fun call db =>
          call.request.Concerns (.photo g l photo) ∧ call.request.Entitled setting db :=
      .of_guarded (hshelved g l) (fun q i s b s' hr => photos_move hr g l)
        (fun i s s' hr => by cases hr; rfl) (fun s n => rfl) (fun i call => guarded_serve call)
        hlooks (fun hc hstep h => ⟨h.1, entitled_of_step h₀ hc hstep h.2⟩)
        fun q i call s b s' hq hr => spares_photo hq hr
    exact hauthority.changed hc hstep hne

/-- The poster of a job adds a photograph to it, while somebody else tries to. -/
theorem item_changed_photo :
    ∃ c d e, Reachable (jobSystem .plain) anyQuery (.initial .oneJob) c ∧
      Step (jobSystem .plain) anyQuery c d ∧ Reachable (jobSystem .plain) anyQuery d e ∧
      e.Served 1 ⟨.attachPhoto 2 7 21 [0], none, none⟩ (.error .notFound) ∧
      ∃ i call, c.Issues (jobSystem .plain) i call d ∧
        call.request.Concerns (.photo .job 20 ⟨⟨7, .job 7 20, 1, 1, 1⟩, 0⟩) ∧
        call.request.Entitled .plain c.db := by
  have hrun := exists_of_exec_step_exec (jobSystem .plain)
    [.arrive 1 ⟨.attachPhoto 2 7 21 [0], none, none⟩,
      .arrive 0 ⟨.attachPhoto 1 7 20 [0], none, none⟩, .run 0, .run 0, .run 0, .run 0] (.run 0)
    [.run 0, .run 1] (.initial .oneJob)
    (fun c d e => (((c.db.photos .job).slot 20).committed.isNone &&
      decide (((d.db.photos .job).slot 20).committed = some ⟨⟨7, .job 7 20, 1, 1, 1⟩, 0⟩)) &&
      decide (e.Served 1 ⟨.attachPhoto 2 7 21 [0], none, none⟩ (.error .notFound)))
    (by decide +kernel)
  obtain ⟨c, d, e, hc, hstep, he, hP⟩ := hrun
  simp only [Bool.and_eq_true, decide_eq_true_eq] at hP
  obtain ⟨⟨hbefore, hafter⟩, hserved⟩ := hP
  refine ⟨c, d, e, hc, hstep, he, hserved,
    item_changed .plain Db.oneJob_quiet (fun _ _ => rfl) hc hstep fun hsame => ?_⟩
  have hshown : c.db.Shows (.photo .job 20 ⟨⟨7, .job 7 20, 1, 1, 1⟩, 0⟩) := hsame.mp hafter
  rw [Db.Shows, Option.isNone_iff_eq_none.mp hbefore] at hshown
  cases hshown

end Runs

end Marketplace.Jobs
