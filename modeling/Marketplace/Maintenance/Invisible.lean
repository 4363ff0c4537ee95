import Marketplace.ReadCommitted.Bounded
import Marketplace.Maintenance.Dead

/-!
# Pruning is invisible

Two runs of requests and workers are compared, one with passes of `maintenance::prune` and one
without. Their tables are the same but for rows that were finished a day before the latest pass read
the clock (`Marketplace.Maintenance.Thin`), or counters whose window was over by then, and no operation
whose clock is not behind that of a pass needs these: that is the unwinding condition of
`Retention.Machine.Unwinding`, one operation at a time.

The grace is cast to 32 bits on its way to the database. The `prune` command clamps it to ten years
(`Marketplace.Maintenance.commandGrace`), and up to `2 ^ 31` days nothing happens to it.
-/

namespace Marketplace.Maintenance

open Retention ReadCommitted

/-! ### Tables in step -/

/-- A day before `h`: what was finished by then can be gone. -/
def graceEnd (h : Instant) : ℤ := (h : ℤ) - day

/-- **The first tables are the second ones** without some rows that were finished at `h`. -/
structure Thin (limits : Limits) (h : Instant) (s t : Store) : Prop where
  accounts : s.accounts = t.accounts
  roles : s.roles = t.roles
  sessions : Thinned (SessionDead (graceEnd h)) s.sessions t.sessions
  tokens : Thinned (TokenDead (graceEnd h)) s.tokens t.tokens
  queue : Thinned (JobDead (graceEnd h)) s.queue t.queue
  outbox : Thinned (EmailDead (graceEnd h)) s.outbox t.outbox
  counters : Swept h s.counters t.counters
  ends : Ends limits t.counters

variable {env : Env} {limits : Limits} {h h' now : Instant} {s t : Store}

theorem graceEnd_le (hnow : h ≤ now) : graceEnd h ≤ now := by
  rw [graceEnd]
  have hcast : (h : ℤ) ≤ now := Int.ofNat_le.mpr hnow
  omega

theorem graceEnd_mono (hh : h ≤ h') : graceEnd h ≤ graceEnd h' :=
  Int.sub_le_sub_right (Int.ofNat_le.mpr hh) _

theorem Thin.refl (hends : Ends limits s.counters) : Thin limits h s s where
  accounts := rfl
  roles := rfl
  sessions := .refl _
  tokens := .refl _
  queue := .refl _
  outbox := .refl _
  counters := fun _ => .inl rfl
  ends := hends

theorem Thin.mono (hthin : Thin limits h s t) (hh : h ≤ h') : Thin limits h' s t :=
  { hthin with
    sessions := hthin.sessions.mono fun _ => sessionOver_mono (graceEnd_mono hh)
    tokens := hthin.tokens.mono fun _ => tokenOver_mono (graceEnd_mono hh)
    queue := hthin.queue.mono fun _ => jobOver_mono (graceEnd_mono hh)
    outbox := hthin.outbox.mono fun _ => emailOver_mono (graceEnd_mono hh)
    counters := fun k => (hthin.counters k).imp_right fun ⟨hnone, row, hrow, hover⟩ =>
      ⟨hnone, row, hrow, hover.trans (Int.ofNat_le.mpr hh)⟩ }

/-- The counters that are left expire when their windows end. -/
theorem Thin.ends_left (hthin : Thin limits h s t) : Ends limits s.counters := by
  intro k row hrow
  rcases hthin.counters k with heq | ⟨hnone, -⟩
  · exact hthin.ends k row (heq ▸ hrow)
  · rw [hnone] at hrow
    cases hrow

/-! ### Operations -/

/-- A job that is recorded in time is not one that can be gone. -/
theorem not_jobDead (hnow : h ≤ now) {r : Record Registry.GeocodeJob}
    (hr : r.row.isOpen = true ∨ now ≤ r.updatedAt + day) : ¬ JobDead (graceEnd h) r := by
  rw [JobDead, jobOver_iff, graceEnd]
  rintro ⟨hclosed, hlt⟩
  rcases hr with hopen | hrecent
  · rw [hclosed] at hopen
    cases hopen
  · have hcast : (h : ℤ) ≤ (r.updatedAt : ℤ) + day := by exact_mod_cast hnow.trans hrecent
    omega

/-- A message that is recorded in time is not one that can be gone. -/
theorem not_emailDead (hnow : h ≤ now) {r : Record Mail.Message}
    (hr : r.row.settled = false ∨ now ≤ r.updatedAt + day) : ¬ EmailDead (graceEnd h) r := by
  rw [EmailDead, emailOver_iff, graceEnd]
  rintro ⟨hsettled, hlt⟩
  rcases hr with hopen | hrecent
  · rw [hsettled] at hopen
    cases hopen
  · have hcast : (h : ℤ) ≤ (r.updatedAt : ℤ) + day := by exact_mod_cast hnow.trans hrecent
    omega

variable (env) in
theorem authenticate_both (hthin : Thin limits h s t) (hnow : h ≤ now) (rawToken : Text) :
    (authenticate env now rawToken s).2 = (authenticate env now rawToken t).2 ∧
      Thin limits h (authenticate env now rawToken s).1 (authenticate env now rawToken t).1 := by
  rw [authenticate, authenticate, findLive_eq hthin.sessions (graceEnd_le hnow), hthin.accounts,
    hthin.roles]
  split
  · exact ⟨rfl, hthin⟩
  · split
    · exact ⟨rfl, hthin⟩
    · split
      · exact ⟨rfl, hthin⟩
      · exact ⟨rfl, { hthin with
          accounts := rfl
          roles := rfl
          sessions := touch_thinned hthin.sessions _ _ _ }⟩

variable (env) in
/-- **An operation answers the same** in tables that lack what was finished, and keeps them in step. -/
theorem Op.run_both {op : Op} (hthin : Thin limits h s t) (hnow : h ≤ now)
    (horder : op.InOrder now t) :
    (op.run env limits now s).2 = (op.run env limits now t).2 ∧
      Thin limits h (op.run env limits now s).1 (op.run env limits now t).1 := by
  have hc : graceEnd h ≤ now := graceEnd_le hnow
  cases op with
  | authenticate rawToken =>
    obtain ⟨hsame, hboth⟩ := authenticate_both env hthin hnow rawToken
    exact ⟨congrArg Answer.authenticated hsame, hboth⟩
  | findLive tokenHash =>
    exact ⟨by rw [Op.run, Op.run, findLive_eq hthin.sessions hc], hthin⟩
  | touch sessionId idleExpiresAt =>
    exact ⟨rfl, { hthin with sessions := touch_thinned hthin.sessions _ _ _ }⟩
  | insertSession id session =>
    obtain ⟨hsame, hboth⟩ := insertSession_both now hthin.sessions horder
    exact ⟨congrArg Answer.inserted hsame, { hthin with sessions := hboth }⟩
  | revoke sessionId reason =>
    exact ⟨rfl, { hthin with sessions := revoke_thinned hthin.sessions _ _ }⟩
  | revokeAllForUser userId reason except =>
    exact ⟨rfl, { hthin with sessions := revokeAllForUser_thinned hthin.sessions _ _ _ }⟩
  | setAccount userId account roles =>
    refine ⟨rfl, { hthin with accounts := ?_, roles := ?_ }⟩
    · simp only [Op.run, hthin.accounts]
    · simp only [Op.run, hthin.roles]
  | issue id userId purpose tokenHash ttlSecs =>
    obtain ⟨hsame, hboth⟩ := issue_both now hthin.tokens userId purpose ttlSecs horder
    exact ⟨congrArg Answer.inserted hsame, { hthin with tokens := hboth }⟩
  | verifyCode challengeId purpose codeHash maxAttempts =>
    obtain ⟨hsame, hboth⟩ :=
      verifyCode_both hthin.tokens hc challengeId purpose codeHash maxAttempts
    exact ⟨congrArg Answer.guessed hsame, { hthin with tokens := hboth }⟩
  | challengeUser challengeId =>
    exact ⟨congrArg Answer.account (challengeUser_eq hthin.tokens hc challengeId), hthin⟩
  | peekLink tokenHash purpose =>
    exact ⟨congrArg Answer.account (peekLink_eq hthin.tokens hc tokenHash purpose), hthin⟩
  | consumeLink tokenHash purpose =>
    obtain ⟨hsame, hboth⟩ := consumeLink_both hthin.tokens hc tokenHash purpose
    exact ⟨congrArg Answer.account hsame, { hthin with tokens := hboth }⟩
  | enforce bucket =>
    obtain ⟨hsame, hswept, hends⟩ :=
      enforce_both hthin.counters hthin.ends (Int.ofNat_le.mpr hnow) bucket
    exact ⟨congrArg Answer.counted hsame, { hthin with counters := hswept, ends := hends }⟩
  | enqueueJob id contractorId addressHash =>
    obtain ⟨hsame, hboth⟩ := enqueueJob_both now hthin.queue contractorId addressHash horder
    exact ⟨congrArg Answer.inserted hsame, { hthin with queue := hboth }⟩
  | claimJobs worker limit view =>
    obtain ⟨hsame, hboth⟩ := claimJobs_both now hthin.queue worker limit view
    exact ⟨congrArg Answer.jobs hsame, { hthin with queue := hboth }⟩
  | markJobSucceeded jobId =>
    have hid := fun r hr heq => not_jobDead hnow (horder r hr heq)
    exact ⟨rfl, { hthin with queue := (only_both now hthin.queue hid).2 }⟩
  | markJobSkipped jobId reason =>
    have hid := fun r hr heq => not_jobDead hnow (horder r hr heq)
    exact ⟨rfl, { hthin with queue := (only_both now hthin.queue hid).2 }⟩
  | markJobFailed jobId error backoffSecs maxAttempts =>
    have hid := fun r hr heq => not_jobDead hnow (horder r hr heq)
    obtain ⟨hsame, hboth⟩ :=
      markJobFailed_both now hthin.queue hid error backoffSecs maxAttempts
    exact ⟨congrArg Answer.job hsame, { hthin with queue := hboth }⟩
  | requeueJobs staleAfterSecs =>
    obtain ⟨hsame, hboth⟩ := requeueJobs_both now hthin.queue staleAfterSecs
    exact ⟨congrArg Answer.requeued hsame, { hthin with queue := hboth }⟩
  | enqueueEmail id email =>
    obtain ⟨hsame, hboth⟩ := enqueueEmail_both now hthin.outbox email horder
    exact ⟨congrArg Answer.inserted hsame, { hthin with outbox := hboth }⟩
  | claimEmails worker limit view =>
    obtain ⟨hsame, hboth⟩ := claimEmails_both now hthin.outbox worker limit view
    exact ⟨congrArg Answer.emails hsame, { hthin with outbox := hboth }⟩
  | markEmailSent messageId providerMessageId =>
    have hid := fun r hr heq => not_emailDead hnow (horder r hr heq)
    exact ⟨rfl, { hthin with outbox := (only_both now hthin.outbox hid).2 }⟩
  | markEmailFailed messageId error backoffSecs maxAttempts =>
    have hid := fun r hr heq => not_emailDead hnow (horder r hr heq)
    obtain ⟨hsame, hboth⟩ :=
      markEmailFailed_both now hthin.outbox hid error backoffSecs maxAttempts
    exact ⟨congrArg Answer.email hsame, { hthin with outbox := hboth }⟩
  | requeueEmails staleAfterSecs =>
    obtain ⟨hsame, hboth⟩ := requeueEmails_both now hthin.outbox staleAfterSecs
    exact ⟨congrArg Answer.requeued hsame, { hthin with outbox := hboth }⟩
  | record id => exact ⟨rfl, { hthin with }⟩

/-! ### Deletes -/

/-- A grace of at least one day, which is not too long for 32 bits. -/
def Graced (graceDays : ℤ) : Prop := 1 ≤ graceDays ∧ graceDays < 2 ^ 31

theorem graced_commandGrace (graceDays : ℤ) : Graced (commandGrace graceDays) := by
  rw [Graced, commandGrace]
  omega

/-- The pass read the clock by `h`, and has a grace. -/
def Statement.Behind {β : Type} (h : Instant) (q : Statement β) : Prop :=
  q.now ≤ h ∧ ∀ graceDays ∈ q.graceDays, Graced graceDays

theorem asI32_eq {n : ℤ} (hn : Graced n) : asI32 n = n := by
  obtain ⟨hone, hword⟩ := hn
  rw [asI32]
  exact Int.bmod_eq_of_le (by omega) (by omega)

/-- **What a grace has passed for was finished a day before.** -/
theorem cutoff_le {graceDays c : ℤ} (hgrace : Graced graceDays)
    (h : cutoff now graceDays = .ok c) : c ≤ graceEnd now := by
  rw [cutoff, asI32_eq hgrace] at h
  split at h
  · cases h
    have hday : (day : ℤ) ≤ graceDays * day :=
      le_mul_of_one_le_left (Int.natCast_nonneg day) hgrace.1
    exact Int.sub_le_sub_left hday _
  · cases h

section Deletes

variable {α : Type} {isOver : ℤ → α → Bool} {key : α → Uuid} {batch : ℕ} {found : Found}
  {rows : List α} {put : List α → Store} {graceDays : ℤ}

/-- **What a delete leaves**: the table without some rows that were finished a day before. -/
theorem thin_deleting (hmono : ∀ c c', c ≤ c' → ∀ a, isOver c a = true → isOver c' a = true)
    (hgrace : Graced graceDays)
    (hput : ∀ left, Thinned (fun a => isOver (graceEnd now) a = true) left rows →
      Thin limits now (put left) s) :
    Thin limits now (deleting now graceDays isOver key batch found rows put).1 s := by
  rw [deleting]
  split
  · exact hput rows (.refl rows)
  · rename_i c hc
    exact hput _ (thinned_delete fun a _ hover => hmono c _ (cutoff_le hgrace hc) a hover)

end Deletes

/-- **A delete of a pass takes away what was finished**, and nothing else. -/
theorem Statement.run_thin {β : Type} {q : Statement β}
    (hgrace : ∀ graceDays ∈ q.graceDays, Graced graceDays) (found : Found)
    (hends : Ends limits s.counters) : Thin limits q.now (q.run found s).1 s := by
  have hrefl : Thin limits q.now s s := .refl hends
  cases q with
  | pruneSessions now graceDays batch =>
    exact thin_deleting (fun _ _ hc _ => sessionOver_mono hc) (hgrace _ rfl)
      fun left hleft => { hrefl with sessions := hleft }
  | pruneGeocodeJobs now graceDays batch =>
    exact thin_deleting (fun _ _ hc _ => jobOver_mono hc) (hgrace _ rfl)
      fun left hleft => { hrefl with queue := hleft }
  | pruneEmails now graceDays batch =>
    exact thin_deleting (fun _ _ hc _ => emailOver_mono hc) (hgrace _ rfl)
      fun left hleft => { hrefl with outbox := hleft }
  | pruneExpired now graceDays batch =>
    exact thin_deleting (fun _ _ hc _ => tokenOver_mono hc) (hgrace _ rfl)
      fun left hleft => { hrefl with tokens := hleft }
  | sweepExpired now batch =>
    exact { hrefl with counters := hrefl.counters.sweepExpired le_rfl batch found.keys }
  | pruneAudit now days batch =>
    rw [Statement.run, deleting]
    split
    · exact hrefl
    · exact { hrefl with }

/-- What is gone from tables that lack what was finished, and what is gone from these. -/
theorem Thin.trans {u : Store} (h₁ : Thin limits h s t) (h₂ : Thin limits h t u) :
    Thin limits h s u where
  accounts := h₁.accounts.trans h₂.accounts
  roles := h₁.roles.trans h₂.roles
  sessions := h₁.sessions.trans h₂.sessions
  tokens := h₁.tokens.trans h₂.tokens
  queue := h₁.queue.trans h₂.queue
  outbox := h₁.outbox.trans h₂.outbox
  counters k := by
    rcases h₁.counters k with heq | ⟨hnone, row, hrow, hover⟩
    · rw [heq]
      exact h₂.counters k
    · refine .inr ⟨hnone, row, ?_, hover⟩
      rcases h₂.counters k with heq | ⟨hnone', -⟩
      · rw [← heq, hrow]
      · rw [hnone'] at hrow
        cases hrow
  ends := h₂.ends

/-! ### What is deleted -/

/-- **What a delete discards was already unusable** at `now`, and is unusable later: no session or
token that authenticates anybody, no job or message that is waiting or being worked on, and no counter
that a request is counted for. -/
structure Discards (limits : Limits) (now : Instant) (s s' : Store) : Prop where
  sessions : ∀ r ∈ s.sessions, r ∉ s'.sessions → ∀ later, now ≤ later → r.row.live later = false
  tokens : ∀ r ∈ s.tokens, r ∉ s'.tokens → ∀ later, now ≤ later → r.row.live later = false
  queue : ∀ r ∈ s.queue, r ∉ s'.queue → r.row.isOpen = false
  outbox : ∀ r ∈ s.outbox, r ∉ s'.outbox → r.row.settled = true
  counters : ∀ k, s.counters k ≠ none → s'.counters k = none → ∀ later : Instant, now ≤ later →
    ∀ bucket, RateLimit.keyOf limits.window bucket later ≠ k

/-- Tables that lack only what was finished have lost only what was unusable. -/
theorem Thin.discards {s' : Store} (hthin : Thin limits now s' s) : Discards limits now s s' where
  sessions r hr hgone later hlater :=
    not_live_of_sessionOver (graceEnd_le hlater) (hthin.sessions.dead_of_not_mem hr hgone)
  tokens r hr hgone later hlater :=
    not_live_of_tokenOver (graceEnd_le hlater) (hthin.tokens.dead_of_not_mem hr hgone)
  queue r hr hgone := not_open_of_jobOver (hthin.queue.dead_of_not_mem hr hgone)
  outbox r hr hgone := settled_of_emailOver (hthin.outbox.dead_of_not_mem hr hgone)
  counters k hk hgone later hlater bucket := by
    rcases hthin.counters k with heq | ⟨-, row, hrow, hover⟩
    · exact absurd (heq ▸ hgone) hk
    · exact key_ne_of_le hthin.ends hrow hover (Int.ofNat_le.mpr hlater) bucket

/-! ### Passes -/

/-- Every delete of a drain is the same one. -/
theorem each_drain {φ : {β : Type} → Statement β → Prop} {step : Statement (Except AppError ℕ)}
    (hstep : φ step) (batch n removed : ℕ) : (drain step batch n removed).run.Each φ := by
  induction n generalizing removed with
  | zero => trivial
  | succ n ih =>
    have honce : (deleteOnce step).run.Each φ := by
      refine ⟨hstep, fun deleted => ?_⟩
      cases deleted <;> trivial
    refine Action.each_andThen honce fun deleted => ?_
    split
    · trivial
    · exact ih _

/-- **The deletes of a pass** have its instant and its grace. -/
theorem each_prune {graceDays : ℤ} (hnow : now ≤ h) (hgrace : Graced graceDays)
    (auditDays : Option ℤ) :
    (prune now graceDays auditDays).run.Each fun q => q.Behind h := by
  have hrows : ∀ graceDays' ∈ some graceDays, Graced graceDays' := by
    rintro _ ⟨⟩
    exact hgrace
  refine Action.each_andThen (each_drain ⟨hnow, hrows⟩ _ _ _) fun _ => ?_
  refine Action.each_andThen (each_drain ⟨hnow, hrows⟩ _ _ _) fun _ => ?_
  refine Action.each_andThen (each_drain ⟨hnow, hrows⟩ _ _ _) fun _ => ?_
  refine Action.each_andThen (each_drain ⟨hnow, hrows⟩ _ _ _) fun _ => ?_
  refine Action.each_andThen (each_drain ⟨hnow, nofun⟩ _ _ _) fun _ => ?_
  cases auditDays with
  | none => trivial
  | some days => exact Action.each_andThen (each_drain ⟨hnow, nofun⟩ _ _ _) fun _ => trivial

/-- **A drain ends** after as many batches as it may make, whatever they delete. -/
theorem endsWithin_drain (step : Statement (Except AppError ℕ)) (batch n removed : ℕ) :
    (drain step batch n removed).run.EndsWithin n := by
  induction n generalizing removed with
  | zero => trivial
  | succ n ih =>
    have honce : (deleteOnce step).run.EndsWithin 1 := by
      refine ⟨0, rfl, fun deleted => ?_⟩
      cases deleted <;> trivial
    refine (Action.endsWithin_andThen (n := n) honce fun deleted => ?_).mono (by omega)
    split
    · trivial
    · exact ih _

/-! ### Runs -/

/-- How far the passes that have begun have read the clock. -/
def raise (h : Instant) : Event → Instant
  | .prune _ now _ _ => max h now
  | .op _ _ | .batch _ _ => h

/-- **What an event needs**: an operation, that its clock is not behind, and that it is in order; a
pass, that it has a grace. -/
def Allowed (h : Instant) : Event → State → Prop
  | .op now op, s => h ≤ now ∧ op.InOrder now s.store
  | .prune _ _ graceDays _, _ => Graced graceDays
  | .batch _ _, _ => True

/-- **The run with passes and the run without**, in step. -/
structure InStep (limits : Limits) (h : Instant) (s t : State) : Prop where
  thin : Thin limits h s.store t.store
  passes : ∀ i p, s.passes i = some p → p.Each fun q => q.Behind h

theorem Statement.Behind.mono {β : Type} {q : Statement β} (hq : q.Behind h) (hh : h ≤ h') :
    q.Behind h' :=
  ⟨hq.1.trans hh, hq.2⟩

/-- A pass that takes a step, or begins, is as far as it may be. -/
theorem each_update {s : State} {p : Prog Unit Store Statement (Except AppError Pruned)}
    (hs : ∀ i p, s.passes i = some p → p.Each fun q => q.Behind h) (hp : p.Each fun q => q.Behind h)
    (i j : ℕ) (p' : Prog Unit Store Statement (Except AppError Pruned))
    (hj : Function.update s.passes i (some p) j = some p') : p'.Each fun q => q.Behind h := by
  by_cases hij : j = i
  · subst hij
    rw [Function.update_self] at hj
    cases hj
    exact hp
  · rw [Function.update_of_ne hij] at hj
    exact hs j p' hj

variable (env) in
/-- **A delete of a pass keeps the runs in step.** -/
theorem InStep.batch {s t : State} (hstep : InStep limits h s t) (i : ℕ) (found : Found) :
    (State.step env limits (.batch i found) s).2 = none ∧
      InStep limits h (State.step env limits (.batch i found) s).1 t := by
  rcases hpass : s.passes i with _ | p
  · exact ⟨by rw [State.step, hpass], by rw [State.step, hpass]; exact hstep⟩
  have heach := hstep.passes i p hpass
  cases p with
  | ret a => exact ⟨by rw [State.step, hpass], by rw [State.step, hpass]; exact hstep⟩
  | read f k =>
    refine ⟨by rw [State.step, hpass], ?_⟩
    rw [State.step, hpass]
    exact ⟨hstep.thin, each_update hstep.passes (heach _) i⟩
  | query q k =>
    refine ⟨by rw [State.step, hpass], ?_⟩
    rw [State.step, hpass]
    have hleft : Thin limits h (q.run found s.store).1 s.store :=
      (Statement.run_thin heach.1.2 found hstep.thin.ends_left).mono heach.1.1
    exact ⟨hleft.trans hstep.thin, each_update hstep.passes (heach.2 _) i⟩

/-- **Passes leave no trace**, one event at a time. -/
theorem unwinding (env : Env) (limits : Limits) :
    (machine env limits).Unwinding Event.isPruning raise Allowed (InStep limits) where
  hidden {h s t e} hhidden hallowed hstep := by
    cases e with
    | op now op => cases hhidden
    | prune i now graceDays auditDays =>
      have hpasses : ∀ j p, s.passes j = some p → p.Each fun q => q.Behind (max h now) :=
        fun j p hj => (hstep.passes j p hj).mono fun q hq => hq.mono (le_max_left h now)
      exact ⟨rfl, hstep.thin.mono (le_max_left h now),
        each_update hpasses (each_prune (le_max_right h now) hallowed auditDays) i⟩
    | batch i found => exact hstep.batch env i found
  visible {h s t e} hvisible hallowed hstep := by
    cases e with
    | op now op =>
      obtain ⟨hsame, hthin⟩ := Op.run_both env hstep.thin hallowed.1 hallowed.2
      exact ⟨congrArg some hsame, hthin, hstep.passes⟩
    | prune i now graceDays auditDays => cases hvisible
    | batch i found => cases hvisible

/-- A pass has a grace. -/
def Event.Graced : Event → Prop
  | .prune _ _ graceDays _ => Maintenance.Graced graceDays
  | .op _ _ | .batch _ _ => True

/-- The first event is not a pass that has read a later clock than the second, an operation. -/
def Event.NotAhead : Event → Event → Prop
  | .prune _ now _ _, .op later _ => now ≤ later
  | _, _ => True

/-- An operation is in order, in the state that it finds. -/
def Event.InOrder : Event → State → Prop
  | .op now o, s => o.InOrder now s.store
  | .prune _ _ _ _, _ | .batch _ _, _ => True

theorem allowed_of_notAhead {events : List Event} {t : State}
    (hgrace : ∀ e ∈ events, e.Graced) (hahead : events.Pairwise Event.NotAhead)
    (hnow : ∀ now op, Event.op now op ∈ events → h ≤ now)
    (horder : (machine env limits).Along Event.InOrder (Machine.purge Event.isPruning events) t) :
    (machine env limits).Allowed Event.isPruning raise Allowed h events t := by
  induction events generalizing h t with
  | nil => trivial
  | cons e events ih =>
    have hgrace' := fun e' he' => hgrace e' (List.mem_cons_of_mem e he')
    obtain ⟨hfirst, hahead'⟩ := List.pairwise_cons.mp hahead
    have hnow' := fun now op hop => hnow now op (List.mem_cons_of_mem e hop)
    cases e with
    | op now op =>
      rw [Machine.purge_cons_of_visible rfl] at horder
      exact ⟨⟨hnow now op List.mem_cons_self, horder.1⟩, ih hgrace' hahead' hnow' horder.2⟩
    | prune i at_ graceDays auditDays =>
      refine ⟨hgrace _ List.mem_cons_self, ih hgrace' hahead' (fun now op hop => ?_) horder⟩
      exact max_le (hnow' now op hop) (hfirst _ hop)
    | batch i found => exact ⟨trivial, ih hgrace' hahead' hnow' horder⟩

/-- **Pruning is invisible.** Take requests and workers, in any order, and passes of pruning with
graces of a day at least, which begin and make their deletes anywhere among them and have not read a
later clock than the operations that come after. Every operation is answered as it is without the
passes; every delete discards only what was already unusable when the pass read the clock, and later;
and every drain ends after as many batches as it may make. -/
theorem prune_invisible (env : Env) (limits : Limits) {s : Store}
    (hends : Ends limits s.counters) (events : List Event) (hgrace : ∀ e ∈ events, e.Graced)
    (hahead : events.Pairwise Event.NotAhead)
    (horder : (machine env limits).Along Event.InOrder (Machine.purge Event.isPruning events)
      { store := s }) :
    (machine env limits).answers events { store := s } =
        (machine env limits).answers (Machine.purge Event.isPruning events) { store := s } ∧
      (∀ before after, before ++ after = events →
        ∀ i (q : Statement (Except AppError ℕ)) k found,
          ((machine env limits).after before { store := s }).passes i = some (.query q k) →
          Discards limits q.now ((machine env limits).after before { store := s }).store
            (q.run found ((machine env limits).after before { store := s }).store).1) ∧
      (∀ step removed, (drain step batchSize maxBatches removed).run.EndsWithin maxBatches) ∧
      ∀ now, (sweep now).run.EndsWithin sweepMaxBatches := by
  have hstart : InStep limits 0 { store := s } { store := s } := ⟨.refl hends, nofun⟩
  have hallowed := allowed_of_notAhead (h := 0) hgrace hahead (fun _ _ _ => Nat.zero_le _) horder
  refine ⟨(unwinding env limits).answers_eq hstart hallowed, ?_,
    fun step removed => endsWithin_drain step batchSize maxBatches removed,
    fun now => endsWithin_drain _ sweepBatch sweepMaxBatches 0⟩
  rintro before after rfl i q k found hpass
  obtain ⟨h', hstep⟩ := (unwinding env limits).after_related hstart hallowed.left
  have hq := (hstep.passes i _ hpass).1
  exact (Statement.run_thin hq.2 found hstep.thin.ends_left).discards

/-- Every bucket may count three requests in five minutes. -/
def Limits.plain : Limits where
  limit _ := 3
  window _ := 300 * RateLimit.second
  long _ := by decide

/-- Two sessions of one account: the first one expired long ago. -/
def Store.twoSessions : Store where
  accounts _ := some
    { email := none, displayName := "Ann".toList, accountType := .homeowner }
  roles _ := []
  sessions :=
    [⟨7, { userId := 1, tokenHash := "#old".toList, idleExpiresAt := 1, absoluteExpiresAt := 1
           lastSeenAt := 0 }, 0⟩,
      ⟨8, { userId := 1, tokenHash := "#new".toList, idleExpiresAt := 9 * day
            absoluteExpiresAt := 9 * day, lastSeenAt := 0 }, 0⟩]
  tokens := []
  queue := []
  outbox := []
  counters _ := none
  audit := []

/-- A pass comes upon both sessions before they are presented. -/
def prunedFirst : List Event :=
  [.prune 0 (3 * day) 1 none, .batch 0 ⟨[8, 7], []⟩, .op (3 * day) (.authenticate "old".toList),
    .op (4 * day) (.authenticate "new".toList)]

theorem prune_invisible_twoSessions :
    (machine Env.plain Limits.plain).answers prunedFirst { store := .twoSessions } =
        (machine Env.plain Limits.plain).answers (Machine.purge Event.isPruning prunedFirst)
          { store := .twoSessions } ∧
      ((machine Env.plain Limits.plain).after prunedFirst
        { store := .twoSessions }).store.sessions.map Record.id = [8] :=
  ⟨(prune_invisible Env.plain Limits.plain (s := Store.twoSessions) nofun prunedFirst
    (by simp [prunedFirst, Event.Graced, Graced])
    (by simp [prunedFirst, Event.NotAhead]; decide) ⟨trivial, trivial, trivial⟩).1, by decide +kernel⟩

end Marketplace.Maintenance
