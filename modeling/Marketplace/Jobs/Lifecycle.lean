import Marketplace.Jobs.Footprint

/-!
# The life of a job

A job is open, closed or cancelled, and what is published of it only grows: it keeps its poster,
the processes that closed and reopened it stand in order, and once it is cancelled it stays so
(`Marketplace.Jobs.Follows`). What a process is about to publish of a job is one turn of it, the
one its request asks for (`Marketplace.Jobs.Call.Drafts`), over the version that is published, so
that publishing it is a transition of the job.

Of the closes that are answered after some moment at which the job was open, the one that took
the first turn is the one that succeeds; the others find the job not open any more.
-/

namespace Marketplace.Jobs

open Alerts (NewJob Ending)
open Board (JobStatus)
open ReadCommitted

variable {setting : Setting}

/-! ### What is published of a job -/

/-- **What is published of a job only grows.** -/
def Follows (v w : Option JobRow) : Prop :=
  ∀ r, v = some r → ∃ r', w = some r' ∧ r'.postedByUserId = r.postedByUserId ∧
    r'.began = r.began ∧ r.turns <+: r'.turns ∧ (r.status = .cancelled → r'.status = .cancelled)

theorem Follows.refl (v : Option JobRow) : Follows v v :=
  fun r hr => ⟨r, hr, rfl, rfl, List.prefix_refl _, id⟩

theorem Follows.trans (u v w : Option JobRow) (h : Follows u v) (h' : Follows v w) :
    Follows u w := by
  intro r hr
  obtain ⟨r₁, hr₁, hposter, hbegan, hturns, hcancelled⟩ := h r hr
  obtain ⟨r₂, hr₂, hposter', hbegan', hturns', hcancelled'⟩ := h' r₁ hr₁
  exact ⟨r₂, hr₂, hposter'.trans hposter, hbegan'.trans hbegan, hturns.trans hturns',
    fun hc => hcancelled' (hcancelled hc)⟩

/-- A job that has had the same turns has the same status. -/
theorem JobRow.status_eq {r r' : JobRow} (hbegan : r'.began = r.began) (hturns : r'.turns = r.turns) :
    r'.status = r.status := by
  rw [r.told, r'.told, hbegan, hturns]

section Writes

variable {β : Type} {q : Query β} {i : ℕ} {k : Uuid} {o : Option JobRow} {r' : JobRow}

/-- **Every statement on a job only adds to it.** -/
theorem follows_of_writes (h : q.writesJob i k o r') : Follows o (some r') := by
  cases q with
  | insertJob id job now =>
    obtain ⟨-, rfl, -⟩ := h
    exact fun r hr => absurd hr.symm (Option.some_ne_none r)
  | closeJob id poster status now =>
    obtain ⟨-, r, rfl, hr⟩ := h
    obtain ⟨hposter, hopen, hposter', -, hbegan, hturns⟩ := JobRow.close_eq hr
    rintro _ ⟨⟩
    refine ⟨r', rfl, hposter'.trans hposter.symm, hbegan, ?_, fun hc => ?_⟩
    · exact ⟨_, hturns.symm⟩
    · rw [hopen] at hc
      cases hc
  | reopenJob id poster =>
    obtain ⟨-, r, rfl, hr⟩ := h
    obtain ⟨hposter, hclosed, hposter', -, hbegan, hturns⟩ := JobRow.reopen_eq hr
    rintro _ ⟨⟩
    refine ⟨r', rfl, hposter'.trans hposter.symm, hbegan, ?_, fun hc => ?_⟩
    · exact ⟨_, hturns.symm⟩
    · rw [hclosed] at hc
      cases hc
  | insertPhoto | keysForJob | deletePhoto | record | putObject | removeObject | commit | rollback =>
    exact h.elim

/-- **The request has a turn at the job**, and gives it this status. -/
def Call.Turns (call : Call) (k : Uuid) (status : JobStatus) : Prop :=
  match call.request with
  | .close _ id s => k = id ∧ status = s
  | .reopen _ id => k = id ∧ status = .opened
  | _ => False

/-- The turns of a version are those of the version it was put over, and the process's own. -/
theorem mem_turns_of_writes (h : q.writesJob i k o r') {x : ℕ × JobStatus} (hx : x ∈ r'.turns) :
    (∃ r, o = some r ∧ x ∈ r.turns) ∨
      x.1 = i ∧ ∀ call : Call, call.Asks q → call.Turns k x.2 := by
  cases q with
  | insertJob id job now =>
    obtain ⟨-, -, rfl⟩ := h
    cases hx
  | closeJob id poster status now =>
    obtain ⟨rfl, r, rfl, hr⟩ := h
    obtain ⟨-, -, -, -, -, hturns⟩ := JobRow.close_eq hr
    rw [hturns, List.mem_append, List.mem_singleton] at hx
    rcases hx with hx | rfl
    · exact Or.inl ⟨r, rfl, hx⟩
    · refine Or.inr ⟨rfl, fun call hcall => ?_⟩
      have hrequest : call.request = .close poster k status.1 := hcall
      rw [Call.Turns, hrequest]
      exact ⟨rfl, rfl⟩
  | reopenJob id poster =>
    obtain ⟨rfl, r, rfl, hr⟩ := h
    obtain ⟨-, -, -, -, -, hturns⟩ := JobRow.reopen_eq hr
    rw [hturns, List.mem_append, List.mem_singleton] at hx
    rcases hx with hx | rfl
    · exact Or.inl ⟨r, rfl, hx⟩
    · refine Or.inr ⟨rfl, fun call hcall => ?_⟩
      have hrequest : call.request = .reopen poster k := hcall
      rw [Call.Turns, hrequest]
      exact ⟨rfl, rfl⟩
  | insertPhoto | keysForJob | deletePhoto | record | putObject | removeObject | commit | rollback =>
    exact h.elim

/-- **What the request makes of a job**, of which `o` is what there was. -/
def Call.Drafts (i : ℕ) (call : Call) (k : Uuid) (o : Option JobRow) (r' : JobRow) : Prop :=
  match call.request with
  | .post _ id _ => k = id ∧ o = none ∧ r'.turns = []
  | .close _ id status => k = id ∧ status ≠ .opened ∧ r'.status = status ∧
      ∃ r, o = some r ∧ r.status = .opened ∧ r'.turns = r.turns ++ [(i, status)]
  | .reopen poster id => k = id ∧ r'.status = .opened ∧
      ∃ r, o = some r ∧ r.postedByUserId = poster ∧ r.status = .closed ∧
        r'.turns = r.turns ++ [(i, .opened)]
  | _ => False

theorem drafts_of_writes (h : q.writesJob i k o r') {call : Call} (hcall : call.Asks q) :
    call.Drafts i k o r' := by
  cases q with
  | insertJob id job now =>
    obtain ⟨poster, input, hrequest⟩ : ∃ poster input, call.request = .post poster id input := hcall
    obtain ⟨rfl, rfl, rfl⟩ := h
    rw [Call.Drafts, hrequest]
    exact ⟨rfl, rfl, rfl⟩
  | closeJob id poster status now =>
    have hrequest : call.request = .close poster id status.1 := hcall
    obtain ⟨rfl, r, rfl, hr⟩ := h
    obtain ⟨-, hopen, -, hstatus, -, hturns⟩ := JobRow.close_eq hr
    rw [Call.Drafts, hrequest]
    exact ⟨rfl, status.2, hstatus, r, rfl, hopen, hturns⟩
  | reopenJob id poster =>
    have hrequest : call.request = .reopen poster id := hcall
    obtain ⟨rfl, r, rfl, hr⟩ := h
    obtain ⟨hposter, hclosed, -, hstatus, -, hturns⟩ := JobRow.reopen_eq hr
    rw [Call.Drafts, hrequest]
    exact ⟨rfl, hstatus, r, rfl, hposter, hclosed, hturns⟩
  | insertPhoto | keysForJob | deletePhoto | record | putObject | removeObject | commit | rollback =>
    exact h.elim

/-- A request makes one thing of a job: not another one over that. -/
theorem Call.Drafts.once {call : Call} {o : Option JobRow} {r r' : JobRow}
    (h : call.Drafts i k o r) : ¬ call.Drafts i k (some r) r' := by
  obtain ⟨request, requestId, fault⟩ := call
  cases request with
  | post poster id input =>
    rintro ⟨-, hnone, -⟩
    cases hnone
  | close poster id status =>
    obtain ⟨-, hne, hstatus, -⟩ := h
    rintro ⟨-, -, -, r₁, he, hopen, -⟩
    cases he
    exact hne (hstatus.symm.trans hopen)
  | reopen poster id =>
    obtain ⟨-, hstatus, -⟩ := h
    rintro ⟨-, -, r₁, he, -, hclosed, -⟩
    cases he
    rw [hstatus] at hclosed
    cases hclosed
  | attachPhoto | removePhoto | addWorkPhoto | removeWorkPhoto => exact h.elim

end Writes

/-! ### What a process is about to publish -/

section Tables

variable {β : Type} {q : Query β} {i j : ℕ} {call : Call} {t t' : Table ℕ Uuid JobRow}

/-- What is published of the jobs only grows, in one step. -/
theorem ordered_of_effect (he : t.Effect (q.writesJob i) i t') (ht : t.Ordered Follows) :
    t'.Ordered Follows ∧ Table.Grown Follows t t' :=
  he.ordered Follows.refl Follows.trans ht fun _ _ h => follows_of_writes h

/-- What a process sees of a job that it has not written is what is published. -/
theorem seen_of_not_drafted (ht : t.Ordered Follows) {k : Uuid} (h : ∀ r, ¬ t.Draft i k r) :
    t.row i k = (t.slot k).committed := by
  rcases Slot.visible_cases i (t.slot k) with hlock | hc
  · rcases hrow : t.row i k with _ | r
    · -- nothing is seen, so nothing is published
      have hle := ht.le_row Follows.refl i k
      rcases hcommitted : (t.slot k).committed with _ | r
      · rfl
      · obtain ⟨r', hr', -⟩ := hle r hcommitted
        rw [hrow] at hr'
        cases hr'
    · exact absurd (by rw [Table.Draft, hlock, ← hrow]; rfl) (h r)
  · exact hc

/-- **What a process is about to publish is what its request makes of what is published.** -/
theorem drafts_of_effect (he : t.Effect (q.writesJob i) i t') (hcall : call.Asks q)
    (ht : t.Ordered Follows)
    (h : ∀ k r, t.Draft i k r → call.Drafts i k (t.slot k).committed r) (k : Uuid) (r : JobRow)
    (hd : t'.Draft i k r) : call.Drafts i k (t'.slot k).committed r := by
  cases he with
  | keep => exact h k r hd
  | @put k₀ r₀ m hfree hA =>
    rcases eq_or_ne k k₀ with rfl | hne
    · rw [Table.Draft, Table.slot_put_self] at hd
      obtain ⟨-, he, rfl⟩ := Slot.lock_put hd
      cases he
      rw [Table.slot_put_self]
      have hmakes := drafts_of_writes hA hcall
      by_cases hdrafted : ∃ r₁, t.Draft i k r₁
      · obtain ⟨r₁, hr₁⟩ := hdrafted
        rw [hr₁.row] at hmakes
        exact absurd hmakes (h k r₁ hr₁).once
      · rwa [seen_of_not_drafted ht fun r₁ hr₁ => hdrafted ⟨r₁, hr₁⟩] at hmakes
    · rw [Table.draft_put_of_ne hne] at hd
      rw [Table.slot_put_of_ne hne]
      exact h k r hd
  | commit => exact absurd hd Table.not_draft_of_commit
  | rollback => exact absurd hd Table.not_draft_of_rollback

/-- The steps of other processes do not touch what a process is about to publish. -/
theorem drafts_of_other (hmoves : Table.Moves j t t') (hne : j ≠ i)
    (h : ∀ k r, t.Draft i k r → call.Drafts i k (t.slot k).committed r) (k : Uuid) (r : JobRow)
    (hd : t'.Draft i k r) : call.Drafts i k (t'.slot k).committed r := by
  have hold : t.Draft i k r := (Table.draft_iff_of_other hmoves hne).mp hd
  rw [(hmoves k).eq_of_held hold hne.symm]
  exact h k r hold

end Tables

/-- **What is known of a process that serves a request.** -/
structure Serving (i : ℕ) (call : Call) (db : Db) : Prop where
  /-- What is published of a job only grows. -/
  ordered : db.jobs.Ordered Follows
  /-- What it is about to publish is what its request makes of what is published. -/
  drafts : ∀ k r, db.jobs.Draft i k r → call.Drafts i k (db.jobs.slot k).committed r
  /-- Its turns at jobs are the ones its request asks for. -/
  turns : db.jobs.Holds fun k r => ∀ x ∈ r.turns, x.1 = i → call.Turns k x.2

/-- **What is known of a process that has not been used.** -/
structure Unused (i : ℕ) (db : Db) : Prop where
  /-- What is published of a job only grows. -/
  ordered : db.jobs.Ordered Follows
  /-- It is not about to publish anything. -/
  drafts : ∀ k r, ¬ db.jobs.Draft i k r
  /-- It has had no turn. -/
  turns : db.jobs.Holds fun _ r => ∀ x ∈ r.turns, x.1 ≠ i

/-- **The database that a run starts from**: nothing is held, and no job has had a turn. -/
structure Db.Quiet (db : Db) : Prop where
  unlocked : ∀ k, (db.jobs.slot k).lock = none
  untouched : ∀ k r, (db.jobs.slot k).committed = some r → r.turns = []

section Runs

variable {s₀ : Db} {c d : Config ℕ Db Call (Except AppError Response) Query}
  {C : Proviso ℕ Db Query}

theorem Db.Quiet.ordered (h : s₀.Quiet) : s₀.jobs.Ordered Follows := by
  intro k j v hv
  rw [h.unlocked k] at hv
  cases hv

theorem Db.Quiet.unused (h : s₀.Quiet) (i : ℕ) : Unused i s₀ where
  ordered := h.ordered
  drafts k _ := Table.not_draft_of_unlocked (h.unlocked k)
  turns k r hr := by
    rcases hr with hc | ⟨j, hl⟩
    · rw [h.untouched k r hc]
      exact nofun
    · rw [h.unlocked k] at hl
      cases hl

/-- **A process serves its request, and no other.** -/
theorem serving_of_reachable (h₀ : s₀.Quiet) (h : Reachable (jobSystem setting) C (.initial s₀) c) :
    (∀ i, c.procs i = .idle → Unused i c.db) ∧
      ∀ i call p, c.procs i = .running call p → Serving i call c.db ∧ p.Each call.Asks := by
  refine own_of_reachable (fun _ => each_serve) Unused Serving ?_ ?_ ?_ ?_ h₀.unused h
  · intro i call s hs
    exact ⟨hs.ordered, fun k r hd => absurd hd (hs.drafts k r),
      fun k r hr x hx hxi => absurd hxi (hs.turns k r hr x hx)⟩
  · intro β q i call s b s' hcall _ hq hs
    have he := Query.jobs_effect hq
    refine ⟨(ordered_of_effect he hs.ordered).1, drafts_of_effect he hcall hs.ordered hs.drafts, ?_⟩
    refine he.holds hs.turns fun k r' hA x hx hxi => ?_
    rcases mem_turns_of_writes hA hx with ⟨r, hrow, hold⟩ | ⟨-, hnew⟩
    · exact hs.turns.row hrow x hold hxi
    · exact hnew call hcall
  · intro β q i j s b s' hne hq
    have he := Query.jobs_effect hq
    have hturn : ∀ {k o r'} {x : ℕ × JobStatus}, q.writesJob j k o r' → x ∈ r'.turns → x.1 = i →
        ∃ r, o = some r ∧ x ∈ r.turns := by
      intro k o r' x hA hx hxi
      exact (mem_turns_of_writes hA hx).resolve_right fun hnew => hne (hnew.1.symm.trans hxi)
    refine ⟨fun hs => ⟨(ordered_of_effect he hs.ordered).1, ?_, ?_⟩,
      fun call hs => ⟨(ordered_of_effect he hs.ordered).1, drafts_of_other he.moves hne hs.drafts, ?_⟩⟩
    · exact fun k r hd => hs.drafts k r ((Table.draft_iff_of_other he.moves hne).mp hd)
    · refine he.holds hs.turns fun k r' hA x hx hxi => ?_
      obtain ⟨r, hrow, hold⟩ := hturn hA hx hxi
      exact hs.turns.row hrow x hold hxi
    · refine he.holds hs.turns fun k r' hA x hx hxi => ?_
      obtain ⟨r, hrow, hold⟩ := hturn hA hx hxi
      exact hs.turns.row hrow x hold hxi
  · exact fun i s n => ⟨fun hs => ⟨hs.ordered, hs.drafts, hs.turns⟩,
      fun call hs => ⟨hs.ordered, hs.drafts, hs.turns⟩⟩

/-- A process that is not running is about to publish nothing. -/
theorem not_drafted_of_free (h₀ : s₀.Quiet) (h : Reachable (jobSystem setting) C (.initial s₀) c)
    {i : ℕ} (hi : ∀ call p, c.procs i ≠ .running call p) (k : Uuid) (r : JobRow) :
    ¬ c.db.jobs.Draft i k r := by
  refine free_of_reachable (fun i s => ∀ k r, ¬ s.jobs.Draft i k r) ?_ ?_ ?_ ?_ h i hi k r
  · intro i s s' hq k r
    cases hq
    exact Table.not_draft_of_rollback
  · intro β q i j s b s' hne hq hs k r hd
    exact hs k r ((Table.draft_iff_of_other (Query.jobs_effect hq).moves hne).mp hd)
  · exact fun i s n hs => hs
  · exact fun i => (h₀.unused i).drafts

/-- **What a step publishes of a job is what a request made of it**, and the process of that
request has just committed. -/
theorem publishes_of_step (h₀ : s₀.Quiet) (h : Reachable (jobSystem setting) C (.initial s₀) c)
    (hstep : Step (jobSystem setting) C c d) {k : Uuid} {r' : JobRow}
    (hd : (d.db.jobs.slot k).committed = some r')
    (hc : (c.db.jobs.slot k).committed ≠ some r') :
    ∃ i call p, c.procs i = .running call (.query .commit p) ∧ d.procs i = .running call (p ()) ∧
      call.Drafts i k (c.db.jobs.slot k).committed r' := by
  cases hstep with
  | arrive => exact absurd hd hc
  | read => exact absurd hd hc
  | @query i call δ q p b s hi hC hq =>
    rcases Query.jobs_committed_or_commit hq with hsame | ⟨hcommit, rfl⟩
    · exact absurd ((hsame k).symm.trans hd) hc
    · cases q with
      | commit =>
        have hdraft : c.db.jobs.Draft i k r' :=
          (Table.committed_of_commit hd).resolve_right hc
        have hserving := ((serving_of_reachable h₀ h).2 i call _ hi).1
        exact ⟨i, call, p, hi, setProc_self, hserving.drafts k r' hdraft⟩
      | insertJob | closeJob | reopenJob | insertPhoto | keysForJob | deletePhoto | record | putObject
      | removeObject | rollback => exact hcommit.elim
  | @crash i call p s hi hC hq =>
    cases hq
    exact absurd (by rw [← hd]; exact Slot.rollback_committed.symm) hc
  | tick n => exact absurd hd hc

theorem grown_of_run (hc : c.db.jobs.Ordered Follows) (h : Reachable (jobSystem setting) C c d) :
    d.db.jobs.Ordered Follows ∧ Table.Grown Follows c.db.jobs d.db.jobs :=
  rel_of_run (fun s => s.jobs.Ordered Follows) (fun s s' => Table.Grown Follows s.jobs s'.jobs)
    (fun _ _ => Follows.refl _) (fun _ _ _ hst htu k => Follows.trans _ _ _ (hst k) (htu k))
    (fun _ _ _ _ _ hs _ hq => ordered_of_effect (Query.jobs_effect hq) hs)
    (fun _ _ hs => ⟨hs, fun _ => Follows.refl _⟩) hc h

theorem ordered_of_reachable (h₀ : s₀.Quiet)
    (h : Reachable (jobSystem setting) C (.initial s₀) c) : c.db.jobs.Ordered Follows :=
  (grown_of_run h₀.ordered h).1

/-- **What is published of a job only grows along a run.** -/
theorem follows_of_reachable (h₀ : s₀.Quiet)
    (h : Reachable (jobSystem setting) anyQuery (.initial s₀) c)
    (hcd : Reachable (jobSystem setting) C c d) (k : Uuid) :
    Follows (c.db.jobs.slot k).committed (d.db.jobs.slot k).committed :=
  (grown_of_run (ordered_of_reachable h₀ h) hcd).2 k

/-- A job that was cancelled once is cancelled. -/
theorem cancelled_of_turn (h₀ : s₀.Quiet)
    (h : Reachable (jobSystem setting) C (.initial s₀) c) :
    c.db.jobs.Holds fun _ r => ∀ x ∈ r.turns, x.2 = .cancelled → r.status = .cancelled := by
  refine invariant_of_run
    (fun s => s.jobs.Holds fun _ r => ∀ x ∈ r.turns, x.2 = .cancelled → r.status = .cancelled)
    ?_ (fun s n hs => hs) ?_ h
  · intro β q i s b s' hs _ hq
    refine (Query.jobs_effect hq).holds hs fun k r' hA x hx hxc => ?_
    cases q with
    | insertJob id job now =>
      obtain ⟨-, -, rfl⟩ := hA
      cases hx
    | closeJob id poster status now =>
      obtain ⟨rfl, r, hrow, hr⟩ := hA
      obtain ⟨-, hopen, -, hstatus, -, hturns⟩ := JobRow.close_eq hr
      rw [hturns, List.mem_append, List.mem_singleton] at hx
      rcases hx with hx | rfl
      · have hcancelled := hs.row hrow x hx hxc
        rw [hopen] at hcancelled
        cases hcancelled
      · exact hstatus.trans hxc
    | reopenJob id poster =>
      obtain ⟨rfl, r, hrow, hr⟩ := hA
      obtain ⟨-, hclosed, -, -, -, hturns⟩ := JobRow.reopen_eq hr
      rw [hturns, List.mem_append, List.mem_singleton] at hx
      rcases hx with hx | rfl
      · have hcancelled := hs.row hrow x hx hxc
        rw [hclosed] at hcancelled
        cases hcancelled
      · cases hxc
    | insertPhoto | keysForJob | deletePhoto | record | putObject | removeObject | commit | rollback =>
      exact hA.elim
  · intro k r hr x hx
    rcases hr with hc | ⟨j, hl⟩
    · rw [h₀.untouched k r hc] at hx
      cases hx
    · rw [h₀.unlocked k] at hl
      cases hl

end Runs

/-! ### How a close is answered -/

/-- What one query does to the jobs. -/
theorem jobs_step {β : Type} {q : Query β} {i : ℕ} {s s' : Db} {b : β}
    (hs : s.jobs.Ordered Follows) (hq : (jobSystem setting).run q i s = some (b, s')) :
    s'.jobs.Ordered Follows ∧ Table.Moves i s.jobs s'.jobs ∧ Table.Grown Follows s.jobs s'.jobs :=
  have he := Query.jobs_effect hq
  ⟨(ordered_of_effect he hs).1, he.moves, (ordered_of_effect he hs).2⟩

/-- **The contract of a close**: what is published of the jobs only grows. -/
def lifecycleContract : Contract (jobSystem setting) anyQuery where
  inv s := s.jobs.Ordered Follows
  guar j s s' := Table.Moves j s.jobs s'.jobs ∧ Table.Grown Follows s.jobs s'.jobs
  inv_tick _ h := h
  rollback h _ hq := jobs_step h hq

section Close

variable {i : ℕ} {k : Uuid}

theorem lifecycle_sound {β : Type} (q : Query β) :
    (lifecycleContract : Contract (jobSystem setting) anyQuery).Sound q :=
  fun _ _ _ _ hs _ hq => jobs_step hs hq

/-- Something is true of what is published of job `k`, and of what follows it. -/
def published (k : Uuid) (φ : Option JobRow → Prop) (hφ : ∀ v w, Follows v w → φ v → φ w) :
    Assertion (lifecycleContract : Contract (jobSystem setting) anyQuery) i where
  holds s := φ (s.jobs.slot k).committed
  stable _ _ _ hg h := hφ _ _ (hg.2 k) h
  tick _ _ h := h

theorem published_lasting {φ : Option JobRow → Prop} {hφ : ∀ v w, Follows v w → φ v → φ w} :
    (published k φ hφ :
      Assertion (lifecycleContract : Contract (jobSystem setting) anyQuery) i).Lasting :=
  fun _ _ _ _ hg h => hφ _ _ (hg.2 k) h

/-- The process is about to publish a version of job `k`, of which something is true. -/
def drafting (k : Uuid) (φ : JobRow → Prop) :
    Assertion (lifecycleContract : Contract (jobSystem setting) anyQuery) i where
  holds s := ∃ r, s.jobs.Draft i k r ∧ φ r
  stable := by
    rintro j s s' hne - - hg ⟨r, hd, hr⟩
    exact ⟨r, (Table.draft_iff_of_other hg.1 hne).mpr hd, hr⟩
  tick _ _ h := h

/-- The process is not about to publish anything of job `k`. -/
def undrafted (k : Uuid) :
    Assertion (lifecycleContract : Contract (jobSystem setting) anyQuery) i where
  holds s := ∀ r, ¬ s.jobs.Draft i k r
  stable hne _ _ hg h r hd := h r ((Table.draft_iff_of_other hg.1 hne).mp hd)
  tick _ _ h := h

/-- Version `r'` has had more turns than `o`. -/
def Beyond (o : Option JobRow) (r' : JobRow) : Prop :=
  ∀ r, o = some r → r.turns.length < r'.turns.length

/-- Process `i` has had its turn at the job, which has had more of them than `o`. -/
def Turned (o : Option JobRow) (i : ℕ) (status : JobStatus) (v : Option JobRow) : Prop :=
  ∃ r', v = some r' ∧ (i, status) ∈ r'.turns ∧ Beyond o r'

theorem Turned.mono {o : Option JobRow} {status : JobStatus} (v w : Option JobRow)
    (hvw : Follows v w) (h : Turned o i status v) : Turned o i status w := by
  obtain ⟨r₁, rfl, hmem, hlt⟩ := h
  obtain ⟨r₂, rfl, -, -, hturns, -⟩ := hvw r₁ rfl
  exact ⟨r₂, rfl, hturns.subset hmem, fun r hr => (hlt r hr).trans_le hturns.length_le⟩

/-- If the job was open, and the poster's, and no statement failed, it has had more turns
since. -/
def Overtaken (o : Option JobRow) (poster : Uuid) (fault : Option ℕ) (v : Option JobRow) : Prop :=
  ∀ r, o = some r → r.status = .opened → r.postedByUserId = poster → fault = none →
    ∃ r', v = some r' ∧ r.turns.length < r'.turns.length

theorem Overtaken.mono {o : Option JobRow} {poster : Uuid} {fault : Option ℕ}
    (v w : Option JobRow) (hvw : Follows v w) (h : Overtaken o poster fault v) :
    Overtaken o poster fault w := by
  intro r hr hopen hposter hfault
  obtain ⟨r₁, rfl, hlt⟩ := h r hr hopen hposter hfault
  obtain ⟨r₂, rfl, -, -, hturns, -⟩ := hvw r₁ rfl
  exact ⟨r₂, rfl, hlt.trans_le hturns.length_le⟩

variable {φ : JobRow → Prop} {R : AppError → Assertion
  (lifecycleContract : Contract (jobSystem setting) anyQuery) i}

/-- A query that is not on jobs keeps what the process is about to publish of one. -/
theorem drafting_keeps {β : Type} {q : Query β} (hq : q.leavesJobs) :
    (lifecycleContract : Contract (jobSystem setting) anyQuery).Keeps (drafting k φ : Assertion _ i) q := by
  intro s b s' hs hP _ hrun
  have heq : s'.jobs = s.jobs := Query.jobs_eq hrun hq
  obtain ⟨r, hd, hr⟩ := hP
  exact ⟨(jobs_step hs hrun).1, (jobs_step hs hrun).2, r, by rwa [heq], hr⟩

theorem safe_takeDown {id : Uuid} {status : JobStatus} :
    Safe (Assertion.onOk (fun _ => drafting k φ) R) (takeDown id status).run
      (drafting k φ : Assertion (lifecycleContract : Contract (jobSystem setting) anyQuery) i) := by
  rw [takeDown]
  split
  · have hkeys : (lifecycleContract : Contract (jobSystem setting) anyQuery).Keeps
        (drafting k φ : Assertion _ i) (Query.keysForJob id) := drafting_keeps trivial
    refine Safe.query_keep hkeys fun keys => Safe.andThen (fun _ => drafting k φ) ?_ fun _ s _ h => h
    refine Safe.look_keep fun ids => Safe.andThen (fun _ => drafting k φ) ?_ fun _ s _ h => h
    refine Safe.ofProg (Safe.keep (Prog.each_countEach fun id => ⟨?_, fun _ => trivial⟩))
    exact drafting_keeps trivial
  · exact fun s _ h => h

theorem safe_record {event : Audit.AuditEvent} :
    Safe (Assertion.onOk (fun _ => drafting k φ) R) (record .tx event).run
      (drafting k φ : Assertion (lifecycleContract : Contract (jobSystem setting) anyQuery) i) := by
  refine Safe.query_andThen (fun id => (Assertion.fact (id.isSome = true)).and (drafting k φ))
    (fun s b s' hs hP hC hrun => ?_) fun id => ?_
  · have hkeeps : (lifecycleContract : Contract (jobSystem setting) anyQuery).Keeps
        (drafting k φ : Assertion _ i) (Query.record .tx event) := drafting_keeps trivial
    obtain ⟨hs', hg, hd⟩ := hkeeps s b s' hs hP hC hrun
    have hrecord : (Query.record .tx event).run setting i s = some (b, s') := hrun
    exact ⟨hs', hg, Query.record_isSome hrecord, hd⟩
  · cases id with
    | none => exact Safe.of_fact nofun
    | some id => exact fun s _ h => h.2

/-- The transaction of a close: what it is about to publish, or why it is not. -/
theorem safe_closeRow {o : Option JobRow} {poster : Uuid} {fault : Option ℕ} {status : Ending}
    {requestId : Option Uuid} :
    Safe (Assertion.onOk
        (fun _ => drafting k fun r' => (i, status.1) ∈ r'.turns ∧ Beyond o r')
        fun _ => published k (Overtaken o poster fault) Overtaken.mono)
      (closeRow poster k status requestId).run
      ((published k (Follows o) fun v w hvw h => Follows.trans o v w h hvw).and (undrafted k) :
        Assertion (lifecycleContract : Contract (jobSystem setting) anyQuery) i) := by
  refine Safe.look_keep fun now => Safe.query_andThen (fun changed =>
    changed.elim (published k (Overtaken o poster fault) Overtaken.mono) fun _ =>
      drafting k fun r' => (i, status.1) ∈ r'.turns ∧ Beyond o r') ?_ fun changed => ?_
  · rintro s b s' hs ⟨hfollows, hundrafted⟩ - hrun
    refine ⟨(jobs_step hs hrun).1, (jobs_step hs hrun).2, ?_⟩
    have hseen := seen_of_not_drafted hs hundrafted
    obtain ⟨⟨b', t⟩, ht, he⟩ := Option.map_eq_some_iff.mp hrun
    cases he
    obtain ⟨-, hb, hput⟩ := Table.modify_cases ht
    rw [hseen] at hb hput
    rcases hcommitted : (s.jobs.slot k).committed with _ | r₁
    · -- there is no such job, and there was none
      rw [hcommitted] at hb
      obtain rfl : b' = none := hb
      intro r hr
      obtain ⟨r', hr', -⟩ := hfollows r hr
      rw [hcommitted] at hr'
      cases hr'
    · rcases hclose : r₁.close i poster status now with _ | ⟨u, r'⟩
      · -- the job is not open, which it was when it had had the turns of `o`
        rw [hcommitted] at hb
        simp only [Table.updating, hclose] at hb
        obtain rfl : b' = none := hb
        intro r hr hopen hposter _
        obtain ⟨r'', hr'', hposter', hbegan, hturns, -⟩ := hfollows r hr
        rw [hcommitted] at hr''
        cases hr''
        have hne : r₁.turns ≠ r.turns := by
          intro hsame
          refine JobRow.not_opened_of_close hclose (hposter'.trans hposter) ?_
          rw [JobRow.status_eq hbegan hsame, hopen]
        rcases hput with ⟨-, rfl⟩ | ⟨r', hr', -⟩
        · refine ⟨r₁, hcommitted, lt_of_le_of_ne hturns.length_le fun hlength => hne ?_⟩
          exact (hturns.eq_of_length hlength).symm
        · rw [hcommitted] at hr'
          simp [Table.updating, hclose] at hr'
      · rw [hcommitted] at hb hput
        simp only [Table.updating, hclose] at hb hput
        obtain rfl : b' = some u := hb
        obtain ⟨hnone, -⟩ | ⟨r₂, hr₂, rfl⟩ := hput
        · cases hnone
        cases hr₂
        obtain ⟨-, -, -, -, -, hturns⟩ := JobRow.close_eq hclose
        refine ⟨r', Table.draft_put, by simp [hturns], fun r hr => ?_⟩
        obtain ⟨r'', hr'', -, -, hprefix, -⟩ := hfollows r hr
        rw [hcommitted] at hr''
        cases hr''
        have hle := hprefix.length_le
        rw [hturns, List.length_append, List.length_singleton]
        exact Nat.lt_succ_of_le hle
  · cases changed with
    | none => exact fun s _ h => h
    | some u =>
      refine Safe.andThen _ safe_takeDown fun orphaned => ?_
      exact Safe.andThen _ safe_record fun _ s _ h => h

/-- **How a close is answered**: with success when the process has had its turn, and with an error
only if the job has had another turn since it was open. -/
theorem safe_close {o : Option JobRow} {poster : Uuid} {fault : Option ℕ} {status : JobStatus}
    {requestId : Option Uuid} (hstatus : status ≠ .opened) :
    Safe (Assertion.onOk (fun _ => published k (Turned o i status) Turned.mono)
        fun _ => published k (Overtaken o poster fault) Overtaken.mono)
      (close fault poster k status requestId).run
      ((published k (Follows o) fun v w hvw h => Follows.trans o v w h hvw).and (undrafted k) :
        Assertion (lifecycleContract : Contract (jobSystem setting) anyQuery) i) := by
  rw [close, dif_neg hstatus]
  refine Safe.andThen (fun _ => published k (Turned o i status) Turned.mono) ?_ fun keys => ?_
  · refine Safe.transaction (Assertion.onOk
      (fun _ => drafting k fun r' => (i, status) ∈ r'.turns ∧ Beyond o r')
      fun _ => published k (Overtaken o poster fault) Overtaken.mono) ?_ ?_ ?_
    · refine Safe.failAt ?_ fault fun hfault s _ r _ _ _ hnone => absurd hnone hfault
      refine Safe.look_andThen (fun owner => (Assertion.fact
        (∀ r, o = some r → owner = some r.postedByUserId)).and
          ((published k (Follows o) fun v w hvw h => Follows.trans o v w h hvw).and (undrafted k)))
        ?_ fun owner => ?_
      · rintro s hs ⟨hfollows, hundrafted⟩
        refine ⟨fun r hr => ?_, hfollows, hundrafted⟩
        obtain ⟨r', hr', hposter, -⟩ := hfollows r hr
        rw [seen_of_not_drafted hs hundrafted, hr', Option.map_some, hposter]
      · refine Safe.of_fact fun howner => ?_
        split
        · exact safe_closeRow
        · rename_i hne
          intro s _ _ r hr _ hposter _
          exact absurd (by rw [howner r hr, hposter]) hne
    · rintro keys s b s' hs ⟨r', hd, hmem, hbeyond⟩ - hrun
      refine ⟨(jobs_step hs hrun).1, (jobs_step hs hrun).2, ?_⟩
      cases hrun
      refine ⟨r', ?_, hmem, hbeyond⟩
      show ((s.jobs.slot k).commit i).committed = some r'
      rw [Slot.commit_committed]
      exact hd.row
    · intro e s b s' hs hP _ hrun
      have hstep := jobs_step hs hrun
      exact ⟨hstep.1, hstep.2, Overtaken.mono _ _ (hstep.2.2 k) hP⟩
  · refine Safe.andThen (fun _ => published k (Turned o i status) Turned.mono) ?_ fun _ s _ h => h
    refine Safe.ofProg (Safe.keep (Prog.each_countEach fun key => ⟨?_, fun _ => trivial⟩))
    exact (lifecycle_sound _).keeps published_lasting

end Close

/-! ### Concurrent closes -/

/-- The request is one to close, or to cancel, job `k`. -/
def Call.Closes (call : Call) (k : Uuid) : Prop :=
  ∃ poster status, call.request = .close poster k status

/-- The query puts job `k` back on the board. -/
def Query.reopens (k : Uuid) (i : ℕ) (db : Db) {β : Type} : Query β → Prop
  | .reopenJob id poster =>
    id = k ∧ ∃ r, db.jobs.row i id = some r ∧ (r.reopen i poster).isSome = true
  | _ => False

/-- Job `k` is not reopened. -/
def noReopening (k : Uuid) : Proviso ℕ Db Query := fun i q db => ¬ q.reopens k i db

/-- Between `c` and `d`, process `i` has been told that it closed job `k`. -/
def Succeeds (c d : Config ℕ Db Call (Except AppError Response) Query) (k : Uuid) (i : ℕ) : Prop :=
  ∃ call a, call.Closes k ∧ a.isOk = true ∧ d.Served i call a ∧ ¬ c.Served i call a

section Contest

variable {s₀ : Db} {c d : Config ℕ Db Call (Except AppError Response) Query} {k : Uuid}
  {r : JobRow} {i : ℕ} {call : Call} {a : Except AppError Response} {C : Proviso ℕ Db Query}

/-- The job is as in `r`, which is open, or has had one turn since, which closed it. -/
def OneTurn (r v : JobRow) : Prop :=
  (v.turns = r.turns ∧ v.status = .opened) ∨ ∃ x, v.turns = r.turns ++ [x] ∧ v.status ≠ .opened

/-- **A job that is not reopened has at most one turn**, from when it is open. -/
theorem oneTurn_of_reachable (h₀ : s₀.Quiet)
    (h : Reachable (jobSystem setting) anyQuery (.initial s₀) c)
    (hr : (c.db.jobs.slot k).committed = some r) (hopen : r.status = .opened)
    (hcd : Reachable (jobSystem setting) (noReopening k) c d) :
    d.db.jobs.Holds fun l v => l = k → OneTurn r v := by
  refine (rel_of_run (fun s => (s.jobs.Ordered Follows ∧ Follows (some r) (s.jobs.slot k).committed) ∧
      s.jobs.Holds fun l v => l = k → OneTurn r v) (fun _ _ => True)
    (fun _ => trivial) (fun _ _ _ _ _ => trivial) ?_ (fun s n hs => ⟨hs, trivial⟩)
    ⟨⟨ordered_of_reachable h₀ h, by rw [hr]; exact Follows.refl _⟩, ?_⟩ hcd).1.2
  · rintro β q i s b s' ⟨⟨hordered, hfollows⟩, hs⟩ hC hq
    have hstep := jobs_step hordered hq
    refine ⟨⟨⟨hstep.1, Follows.trans _ _ _ hfollows (hstep.2.2 k)⟩, ?_⟩, trivial⟩
    refine (Query.jobs_effect hq).holds hs fun l v hA hl => ?_
    cases q with
    | insertJob id job now =>
      -- the job is there already
      obtain ⟨-, hnone, -⟩ := hA
      obtain ⟨r₁, hr₁, -⟩ := hfollows r rfl
      obtain ⟨r₂, hr₂, -⟩ := hordered.le_row Follows.refl i k r₁ hr₁
      rw [hl, hr₂] at hnone
      cases hnone
    | closeJob id poster status now =>
      obtain ⟨-, r₁, hrow, hclose⟩ := hA
      obtain ⟨-, hopen₁, -, hstatus, -, hturns⟩ := JobRow.close_eq hclose
      rcases hs.row hrow hl with ⟨hsame, -⟩ | ⟨x, -, hne⟩
      · exact Or.inr ⟨_, by rw [hturns, hsame], by rw [hstatus]; exact status.2⟩
      · exact absurd hopen₁ hne
    | reopenJob id poster =>
      obtain ⟨rfl, r₁, hrow, hreopen⟩ := hA
      exact absurd ⟨hl, r₁, hrow, by rw [hreopen]; rfl⟩ hC
    | insertPhoto | keysForJob | deletePhoto | record | putObject | removeObject | commit | rollback =>
      exact hA.elim
  · rintro l v (hc | ⟨j, hdraft⟩) rfl
    · rw [hr] at hc
      cases hc
      exact Or.inl ⟨rfl, hopen⟩
    · -- a process that is about to publish the job is closing it
      have hrunning : ∃ call p, c.procs j = .running call p := by
        by_contra hfree
        push Not at hfree
        exact not_drafted_of_free h₀ h hfree l v hdraft
      obtain ⟨call, p, hj⟩ := hrunning
      have hmakes := ((serving_of_reachable h₀ h).2 j call p hj).1.drafts l v hdraft
      rw [hr] at hmakes
      obtain ⟨request, requestId, fault⟩ := call
      cases request with
      | post poster id input =>
        obtain ⟨-, hnone, -⟩ := hmakes
        cases hnone
      | close poster id status =>
        obtain ⟨-, hne, hstatus, r₁, he, -, hturns⟩ := hmakes
        cases he
        exact Or.inr ⟨_, hturns, by rwa [hstatus]⟩
      | reopen poster id =>
        obtain ⟨-, -, r₁, he, -, hclosed, -⟩ := hmakes
        cases he
        rw [hopen] at hclosed
        cases hclosed
      | attachPhoto | removePhoto | addWorkPhoto | removeWorkPhoto => exact hmakes.elim

/-- **The first turn is the one that succeeds**: it is the only one, and the process that took it
is told so. -/
theorem exists_turn (h₀ : s₀.Quiet)
    (h : Reachable (jobSystem setting) anyQuery (.initial s₀) c)
    (hr : (c.db.jobs.slot k).committed = some r) (hopen : r.status = .opened)
    (hcd : Reachable (jobSystem setting) (noReopening k) c d)
    (hlater : ∃ r', (d.db.jobs.slot k).committed = some r' ∧ r.turns.length < r'.turns.length) :
    ∃ i call status, call.Closes k ∧
      (∀ r', (d.db.jobs.slot k).committed = some r' → r'.turns = r.turns ++ [(i, status)]) ∧
      (∀ a, ¬ c.Served i call a) ∧ c.procs i ≠ .dead ∧
      (d.procs i = .dead ∨ ∃ p, d.procs i = .running call p ∧ p.Answers fun a => a.isOk = true) := by
  obtain ⟨e, e', hce, hstep, hed, hnot, r₂, hr₂, hlt⟩ := hcd.exists_step
    (fun s => ∃ r', (s.jobs.slot k).committed = some r' ∧ r.turns.length < r'.turns.length)
    (by rintro ⟨r', hr', hlt⟩; rw [hr] at hr'; cases hr'; exact lt_irrefl _ hlt) hlater
  have he := h.trans hce.any
  obtain ⟨i, call, p, hi, hi', hmakes⟩ := publishes_of_step h₀ he hstep.any hr₂
    fun hold => hnot ⟨r₂, hold, hlt⟩
  -- until this step the job has had no turn
  obtain ⟨r₁, hr₁, -, hbegan, hturns, -⟩ := follows_of_reachable h₀ h hce k r hr
  have hsame : r.turns = r₁.turns := by
    refine hturns.eq_of_length (le_antisymm hturns.length_le ?_)
    exact Nat.not_lt.mp fun hlt => hnot ⟨r₁, hr₁, hlt⟩
  have hopen₁ : r₁.status = .opened := (JobRow.status_eq hbegan hsame.symm).trans hopen
  rw [hr₁] at hmakes
  obtain ⟨poster, status, hrequest, hturns₂⟩ : ∃ poster status,
      call.request = .close poster k status ∧ r₂.turns = r₁.turns ++ [(i, status)] := by
    obtain ⟨request, requestId, fault⟩ := call
    cases request with
    | post poster id input =>
      obtain ⟨-, hnone, -⟩ := hmakes
      cases hnone
    | close poster id status =>
      obtain ⟨rfl, -, -, r₃, heq, -, hturns⟩ := hmakes
      cases heq
      exact ⟨poster, status, rfl, hturns⟩
    | reopen poster id =>
      obtain ⟨-, -, r₃, heq, -, hclosed, -⟩ := hmakes
      cases heq
      rw [hopen₁] at hclosed
      cases hclosed
    | attachPhoto | removePhoto | addWorkPhoto | removeWorkPhoto => exact hmakes.elim
  refine ⟨i, call, status, ⟨poster, status, hrequest⟩, fun r' hr' => ?_, fun a hserved => ?_,
    fun hdead => ?_, ?_⟩
  · obtain ⟨r₃, hr₃, -, -, hprefix, -⟩ :=
      follows_of_reachable h₀ (he.trans (.single hstep.any)) hed k r₂ hr₂
    rw [hr'] at hr₃
    cases hr₃
    rw [hturns₂, ← hsame] at hprefix
    rcases (oneTurn_of_reachable h₀ h hr hopen hcd).committed hr' rfl with ⟨heq, -⟩ | ⟨x, heq, -⟩
    · have hle := hprefix.length_le
      rw [heq, List.length_append, List.length_singleton] at hle
      omega
    · exact (List.IsPrefix.eq_of_length hprefix (by rw [heq]; simp)).symm
  · rcases Reachable.served hce hserved with hsame | hdead
    · rw [Config.Served, hi] at hsame
      cases hsame
    · rw [hi] at hdead
      cases hdead
  · rw [Reachable.dead hce hdead] at hi
    cases hi
  · have hset := kept_of_reachable (P := fun _ call => Prog.Settles Query.publishes
      fun a => call.isLifecycle = true → a.isOk = true) (fun _ _ => closed_settles)
      (fun _ call => settles_serve call) he hi
    have hanswers := (hset.1 trivial ()).mono fun a ha => ha (by rw [Call.isLifecycle, hrequest])
    exact Reachable.proc closed_answers hed hi' hanswers

/-- A close that was published is answered already, when the job is open again. -/
theorem served_of_turn (h₀ : s₀.Quiet)
    (h : Reachable (jobSystem setting) anyQuery (.initial s₀) c)
    (hr : (c.db.jobs.slot k).committed = some r) (hopen : r.status = .opened)
    {status : JobStatus} (hmem : (i, status) ∈ r.turns) (hne : status ≠ .opened)
    (hcd : Reachable (jobSystem setting) C c d) (hd : d.Served i call a) : c.Served i call a := by
  have hkept : status ≠ .cancelled := by
    intro hcancelled
    have hstatus := (cancelled_of_turn h₀ h).committed hr _ hmem hcancelled
    rw [hopen] at hstatus
    cases hstatus
  obtain ⟨e, e', he, hstep, hec, hnot, r₂, hr₂, hmem₂⟩ := h.exists_step
    (fun s => ∃ r', (s.jobs.slot k).committed = some r' ∧ (i, status) ∈ r'.turns)
    (by rintro ⟨r', hr', hmem⟩; rw [h₀.untouched k r' hr'] at hmem; cases hmem) ⟨r, hr, hmem⟩
  obtain ⟨j, call', p, hj, hj', hmakes⟩ := publishes_of_step h₀ he hstep hr₂
    fun hold => hnot ⟨r₂, hold, hmem₂⟩
  have hturn : ∀ {r₁ : JobRow} {x : ℕ × JobStatus}, (e.db.jobs.slot k).committed = some r₁ →
      r₂.turns = r₁.turns ++ [x] → x = (i, status) := by
    intro r₁ x hr₁ hturns
    rw [hturns, List.mem_append, List.mem_singleton] at hmem₂
    exact (hmem₂.resolve_left fun hold => hnot ⟨r₁, hr₁, hold⟩).symm
  obtain ⟨poster, hrequest, rfl⟩ : ∃ poster, call'.request = .close poster k .closed ∧ j = i := by
    obtain ⟨request, requestId, fault⟩ := call'
    cases request with
    | post poster id input =>
      obtain ⟨-, -, hturns⟩ := hmakes
      rw [hturns] at hmem₂
      cases hmem₂
    | close poster id status' =>
      obtain ⟨rfl, -, -, r₁, hr₁, -, hturns⟩ := hmakes
      obtain ⟨rfl, rfl⟩ := Prod.mk.inj (hturn hr₁ hturns)
      cases status' with
      | opened => exact absurd rfl hne
      | closed => exact ⟨poster, rfl, rfl⟩
      | cancelled => exact absurd rfl hkept
    | reopen poster id =>
      obtain ⟨-, -, r₁, hr₁, -, -, hturns⟩ := hmakes
      exact absurd (Prod.mk.inj (hturn hr₁ hturns)).2.symm hne
    | attachPhoto | removePhoto | addWorkPhoto | removeWorkPhoto => exact hmakes.elim
  -- the answer came with the commit
  have hends := kept_of_reachable (P := fun _ call p =>
      (∃ poster id, call.request = .close poster id .closed) → Prog.Ends Query.publishes p)
    (fun _ _ => closed_ends.imp _) (fun _ _ ⟨_, _, hid⟩ => ends_serve hid) he hj
  obtain ⟨a', ha'⟩ := (hends ⟨poster, k, hrequest⟩).1 trivial ()
  have hserved : e'.Served j call' a' := by rw [Config.Served, hj', ha']
  have hlive : ∀ {f : Config ℕ Db Call (Except AppError Response) Query},
      Reachable (jobSystem setting) anyQuery f d → f.procs j ≠ .dead := by
    intro f hfd hdead
    rw [Config.Served, Reachable.dead hfd hdead] at hd
    cases hd
  have hc := (Reachable.served hec hserved).resolve_right (hlive hcd.any)
  have hd' := (Reachable.served hcd hc).resolve_right (hlive .refl)
  rw [Config.Served, hd'] at hd
  cases hd
  exact hc

/-- A close that was answered with success has had its turn. -/
theorem turned_of_served (h₀ : s₀.Quiet)
    (h : Reachable (jobSystem setting) anyQuery (.initial s₀) d) (hcall : call.Closes k)
    (hd : d.Served i call a) (ha : a.isOk = true) :
    ∃ r' status, (d.db.jobs.slot k).committed = some r' ∧ (i, status) ∈ r'.turns ∧
      status ≠ .opened := by
  obtain ⟨request, requestId, fault⟩ := call
  obtain ⟨poster, status, hrequest⟩ := hcall
  obtain rfl : request = .close poster k status := hrequest
  have hstatus : status ≠ .opened := by
    rintro rfl
    have hkept := kept_of_reachable (P := fun _ call p =>
        call = ⟨.close poster k .opened, requestId, fault⟩ →
          p.Answers fun a => a.isOk = false)
      (fun _ _ => closed_answers.imp _) (by rintro _ _ rfl; rfl) h hd rfl
    rw [show a.isOk = false from hkept] at ha
    cases ha
  have hpost : (Assertion.onOk (fun _ => published k (Turned none i status) Turned.mono)
      (fun _ => published k (Overtaken none poster fault) Overtaken.mono) a :
      Assertion (lifecycleContract : Contract (jobSystem setting) anyQuery) i).holds d.db := by
    refine Contract.served_after (c := Config.initial s₀)
      (P := (published k (Follows none) fun v w hvw h => Follows.trans none v w h hvw).and
        (undrafted k)) lifecycle_sound ?_ h₀.ordered ?_ rfl h hd
    · exact Safe.andThen _ (safe_close hstatus) fun _ s _ hs => hs
    · exact ⟨fun r hr => absurd hr.symm (Option.some_ne_none r), (h₀.unused i).drafts k⟩
  · cases a with
    | error e => cases ha
    | ok response =>
      obtain ⟨r', hr', hmem, -⟩ := hpost
      exact ⟨r', status, hr', hmem, hstatus⟩

/-- A close of an open job by its poster, none of whose statements failed, is answered when the
job has had a turn. -/
theorem later_of_served (h₀ : s₀.Quiet)
    (h : Reachable (jobSystem setting) anyQuery (.initial s₀) c)
    (hr : (c.db.jobs.slot k).committed = some r) (hopen : r.status = .opened)
    {status : JobStatus} (hstatus : status ≠ .opened)
    (hcall : call.request = .close r.postedByUserId k status) (hfault : call.fault = none)
    (hidle : c.procs i = .idle) (hcd : Reachable (jobSystem setting) anyQuery c d)
    (hd : d.Served i call a) :
    ∃ r', (d.db.jobs.slot k).committed = some r' ∧ r.turns.length < r'.turns.length := by
  obtain ⟨request, requestId, fault⟩ := call
  obtain rfl : request = .close r.postedByUserId k status := hcall
  have hpost : (Assertion.onOk (fun _ => published k (Turned (some r) i status) Turned.mono)
      (fun _ => published k (Overtaken (some r) r.postedByUserId fault) Overtaken.mono) a :
      Assertion (lifecycleContract : Contract (jobSystem setting) anyQuery) i).holds d.db := by
    refine Contract.served_after (P := (published k (Follows (some r)) fun v w hvw h =>
        Follows.trans (some r) v w h hvw).and (undrafted k)) lifecycle_sound ?_
      (ordered_of_reachable h₀ h) ?_ hidle hcd hd
    · exact Safe.andThen _ (safe_close hstatus) fun _ s _ hs => hs
    · refine ⟨?_, ((serving_of_reachable h₀ h).1 i hidle).drafts k⟩
      show Follows (some r) (c.db.jobs.slot k).committed
      rw [hr]
      exact Follows.refl _
  · cases a with
    | error e => exact hpost r rfl hopen rfl hfault
    | ok response =>
      obtain ⟨r', hr', -, hbeyond⟩ := hpost
      exact ⟨r', hr', hbeyond r rfl⟩

end Contest

/-! ### The life of a job -/

/-- What is published of the jobs, of the photographs, and of the audit log. -/
def Db.shown (db : Db) :
    (Uuid → Option JobRow) × (Gallery → Uuid → Option Photo) × (Uuid → Option Audit.AuditEvent) :=
  (fun k => (db.jobs.slot k).committed, fun g k => ((db.photos g).slot k).committed,
    fun k => (db.audit.slot k).committed)

/-- A query that publishes nothing leaves what is published. -/
theorem shown_eq {β : Type} {q : Query β} {i : ℕ} {s s' : Db} {b : β}
    (h : q.run setting i s = some (b, s')) (hq : ¬ q.publishes) : s'.shown = s.shown := by
  obtain ⟨hjobs, hphotos, haudit⟩ := Query.committed_eq h hq
  rw [Db.shown, Db.shown]
  congr 1
  · funext k
    exact hjobs k
  congr 1
  · funext g k
    exact hphotos g k
  · funext k
    exact haudit k

/-- **The life of a job**, in every interleaving of posts, closes and reopenings, and of what is
done to photographs meanwhile:

* a job has a closing time exactly when it is not open;
* a job that is cancelled stays cancelled;
* a step that makes a job open which was not has found it closed, and is one of a reopening by
  its poster;
* of the closes that are answered after a moment at which a job is open, and before it is
  reopened, at most one succeeds, and one does when its poster has asked for it, no statement of
  that request failed, and every close has been answered;
* no step of a request that is answered with an error changes what is published of the jobs, of
  the photographs, or of the audit log. -/
theorem job_lifecycle (setting : Setting) {s₀ : Db} (h₀ : s₀.Quiet)
    {c : Config ℕ Db Call (Except AppError Response) Query}
    (h : Reachable (jobSystem setting) anyQuery (.initial s₀) c) :
    (∀ k r, (c.db.jobs.slot k).committed = some r → (r.closedAt = none ↔ r.status = .opened)) ∧
    (∀ k r d, (c.db.jobs.slot k).committed = some r → r.status = .cancelled →
      Reachable (jobSystem setting) anyQuery c d →
      ∃ r', (d.db.jobs.slot k).committed = some r' ∧ r'.status = .cancelled) ∧
    (∀ k r r' d, (c.db.jobs.slot k).committed = some r → r.status ≠ .opened →
      Step (jobSystem setting) anyQuery c d → (d.db.jobs.slot k).committed = some r' →
      r'.status = .opened →
      r.status = .closed ∧
        ∃ i call p, c.procs i = .running call p ∧ call.request = .reopen r.postedByUserId k) ∧
    (∀ k r d, (c.db.jobs.slot k).committed = some r → r.status = .opened →
      Reachable (jobSystem setting) (noReopening k) c d →
      (∀ i j, Succeeds c d k i → Succeeds c d k j → i = j) ∧
      ∀ i call a status, call.request = .close r.postedByUserId k status → status ≠ .opened →
        call.fault = none → c.procs i = .idle → d.Served i call a →
        (∀ j call p, call.Closes k → d.procs j = .running call p → ∃ a, p = .ret a) →
        (∀ j, d.procs j = .dead → c.procs j = .dead) → ∃ j, Succeeds c d k j) ∧
    ∀ d e i call error, call.isLifecycle = true → StepOf (jobSystem setting) anyQuery i c d →
      Reachable (jobSystem setting) anyQuery d e → e.Served i call (.error error) →
      d.db.shown = c.db.shown := by
  refine ⟨fun k r _ => r.closed_iff, fun k r d hr hcancelled hcd => ?_,
    fun k r r' d hr hne hstep hr' hopen => ?_, fun k r d hr hopen hcd => ⟨?_, ?_⟩,
    fun d e i call error hcall hstep hde hserved => ?_⟩
  · obtain ⟨r', hr', -, -, -, hkept⟩ := follows_of_reachable h₀ h hcd k r hr
    exact ⟨r', hr', hkept hcancelled⟩
  · obtain ⟨i, call, p, hi, -, hmakes⟩ := publishes_of_step h₀ h hstep hr' fun hold => by
      rw [hr] at hold
      cases hold
      exact hne hopen
    rw [hr] at hmakes
    obtain ⟨request, requestId, fault⟩ := call
    cases request with
    | post poster id input =>
      obtain ⟨-, hnone, -⟩ := hmakes
      cases hnone
    | close poster id status =>
      obtain ⟨-, hclosing, hstatus, -⟩ := hmakes
      exact absurd (hstatus.symm.trans hopen) hclosing
    | reopen poster id =>
      obtain ⟨rfl, -, r₁, he, rfl, hclosed, -⟩ := hmakes
      cases he
      exact ⟨hclosed, i, _, _, hi, rfl⟩
    | attachPhoto | removePhoto | addWorkPhoto | removeWorkPhoto => exact hmakes.elim
  · -- both have had a turn since the job was open, and there is one such turn
    have hfirst : ∀ i, Succeeds c d k i → ∃ i₀ status₀,
        (∀ r', (d.db.jobs.slot k).committed = some r' → r'.turns = r.turns ++ [(i₀, status₀)]) ∧
        ∀ r', (d.db.jobs.slot k).committed = some r' →
          ∃ status, (i, status) ∈ r'.turns ∧ (i, status) ∉ r.turns := by
      rintro i ⟨call, a, hcloses, ha, hserved, hnot⟩
      obtain ⟨r', status, hr', hmem, hstatus⟩ :=
        turned_of_served h₀ (h.trans hcd.any) hcloses hserved ha
      have hnew : (i, status) ∉ r.turns := fun hold =>
        hnot (served_of_turn h₀ h hr hopen hold hstatus hcd hserved)
      obtain ⟨r'', hr'', -, -, hprefix, -⟩ := follows_of_reachable h₀ h hcd k r hr
      rw [hr'] at hr''
      cases hr''
      have hlt : r.turns.length < r'.turns.length := by
        refine lt_of_le_of_ne hprefix.length_le fun hlength => hnew ?_
        rwa [List.IsPrefix.eq_of_length hprefix hlength]
      obtain ⟨i₀, -, status₀, -, hturns, -⟩ := exists_turn h₀ h hr hopen hcd ⟨r', hr', hlt⟩
      refine ⟨i₀, status₀, hturns, fun r'' hr'' => ?_⟩
      rw [hr'] at hr''
      cases hr''
      exact ⟨status, hmem, hnew⟩
    intro i j hi hj
    obtain ⟨i₀, status₀, hturns, hmem⟩ := hfirst i hi
    obtain ⟨-, -, -, hmem'⟩ := hfirst j hj
    obtain ⟨r', hr', -⟩ := follows_of_reachable h₀ h hcd k r hr
    have hlast : ∀ x ∈ r'.turns, x ∉ r.turns → x = (i₀, status₀) := by
      intro x hx hnew
      rw [hturns r' hr', List.mem_append, List.mem_singleton] at hx
      exact hx.resolve_left hnew
    obtain ⟨status, hx, hnew⟩ := hmem r' hr'
    obtain ⟨status', hx', hnew'⟩ := hmem' r' hr'
    exact (Prod.mk.inj ((hlast _ hx hnew).trans (hlast _ hx' hnew').symm)).1
  · intro i call a status hrequest hstatus hfault hidle hserved hall hdead
    have hlater := later_of_served h₀ h hr hopen hstatus hrequest hfault hidle hcd.any hserved
    obtain ⟨j, call', -, hcloses, -, hnot, hlive, hj⟩ := exists_turn h₀ h hr hopen hcd hlater
    rcases hj with hj | ⟨p, hj, hanswers⟩
    · exact absurd (hdead j hj) hlive
    · obtain ⟨a', rfl⟩ := hall j call' p hcloses hj
      exact ⟨j, call', a', hcloses, hanswers, hj, hnot a'⟩
  · exact eq_of_served Db.shown (fun _ call => settles_serve call)
      (show ¬ Query.rollback.publishes from nofun) (fun _ _ _ _ _ => shown_eq) h hstep hde hserved
      fun hok => nomatch hok hcall

/-- Job `7`, which account `1` has posted. -/
def Db.oneJob : Db where
  jobs := .ofList (fun r => r.id) [JobRow.new (NewJob.plain 1) 7 0] (by decide)

theorem Db.oneJob_quiet : Db.oneJob.Quiet where
  unlocked _ := rfl
  untouched k r hr := by
    have hmem := (Table.mem_of_slot_ofList hr).1
    rw [List.mem_singleton] at hmem
    rw [hmem]
    rfl

/-- Two closes that both find the job open: the first one to write succeeds, and nobody else. -/
theorem job_lifecycle_twoCloses :
    ∃ d, Reachable (jobSystem .plain) (noReopening 7) (.initial .oneJob) d ∧
      Succeeds (.initial .oneJob) d 7 0 ∧ ∀ j, Succeeds (.initial .oneJob) d 7 j → j = 0 := by
  have hrun := exists_of_exec ((jobSystem .plain).guarded fun _ q _ => match q with
      | .reopenJob _ _ => false
      | _ => true)
    ([.arrive 0 ⟨.close 1 7 .closed, none, none⟩, .arrive 1 ⟨.close 1 7 .closed, none, none⟩,
      .run 0, .run 1, .run 0, .run 1, .run 0, .run 0, .run 0, .run 1, .run 1])
    (.initial .oneJob)
    (fun d => decide (d.Served 0 ⟨.close 1 7 .closed, none, none⟩ (.ok .done)) &&
      decide (d.Served 1 ⟨.close 1 7 .closed, none, none⟩
        (.error (.conflict "That job is no longer open."))))
    (by decide +kernel)
  obtain ⟨d, hd, hserved⟩ := hrun
  rw [Bool.and_eq_true, decide_eq_true_eq, decide_eq_true_eq] at hserved
  have hrun : Reachable (jobSystem .plain) (noReopening 7) (.initial .oneJob) d := by
    refine reachable_of_guarded (fun i q s hq => ?_) hd
    cases q with
    | reopenJob => cases hq
    | insertJob | closeJob | insertPhoto | keysForJob | deletePhoto | record | putObject
    | removeObject | commit | rollback => exact id
  have hfirst : Succeeds (.initial .oneJob) d 7 0 :=
    ⟨_, _, ⟨1, .closed, rfl⟩, rfl, hserved.1, nofun⟩
  have honce := ((job_lifecycle .plain Db.oneJob_quiet .refl).2.2.2.1 7
    (JobRow.new (NewJob.plain 1) 7 0) d rfl rfl hrun).1
  exact ⟨d, hrun, hfirst, fun j hj => honce j 0 hj hfirst⟩

end Marketplace.Jobs
