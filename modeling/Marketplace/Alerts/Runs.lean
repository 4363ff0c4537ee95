import Marketplace.Alerts.Batches

/-!
# What holds of every run

Alerts are never repeated and never half done (`Marketplace.Alerts.alerts_once`), however many
passes run at once and wherever they die.

But a pass marks every job it claims, also one that is not open, which alerts nobody; and a
closed job may be reopened. In the runs where no job that was marked while it was closed is
reopened, every job that is open and marked was announced to whom it concerned
(`Marketplace.Alerts.open_was_announced`).
-/

namespace Marketplace.Alerts

open Board ReadCommitted

variable {env : Search.Env} {site : Site} {setting : Setting}

/-! ### Once, and not by halves -/

/-- A configuration of the alert subsystem. -/
abbrev State : Type 1 := Config ℕ Db Request (Except AppError Response) Query

/-- A digest that is published, with a line for this match. -/
def Queued (site : Site) (db : Db) (a : AlertMatch) (g : Uuid) (D : Outgoing) : Prop :=
  (db.outbox.slot g).committed = some D ∧ a ∈ D.alerts ∧ D.userId = a.userId ∧
    unsubscribeUrl site a.searchId <:+: D.bodyText

/-- The store that a run starts from is consistent. -/
theorem consistent_setting : Consistent site setting setting.db where
  accounts := rfl
  searches_ordered := fun _ _ _ hlock => nomatch hlock
  searches_kept := fun _ => SameSearch.refl _
  jobs := by
    rintro k p (hp | ⟨j, hp⟩) <;> cases hp
  jobs_ordered := fun _ _ _ hlock => nomatch hlock
  digests := by
    rintro g D (hD | ⟨j, hD⟩) <;> cases hD
  digests_ordered := fun _ _ _ hlock => nomatch hlock
  pending := fun _ _ _ hlock => nomatch hlock
  queued := fun _ _ hD => nomatch hD
  once := by
    rintro g g' D D' (hD | ⟨j, hD⟩) <;> cases hD

/-- In what is reached, the store is consistent and every process keeps its contract. -/
theorem tracked_of_reachable {c : State}
    (h : Reachable (alertSystem env site) anyQuery (.initial setting.db) c) :
    Consistent site setting c.db ∧
      (fullContract env site setting).Tracked (fun i => (idle env site setting i).adding)
        (fun _ _ _ => .any) c :=
  (fullContract env site setting).of_reachable (fun _ r => safe_serve r) consistent_setting
    (fun i => show (idle env site setting i).holds setting.db from
      holds_idle (fun _ _ hlock => nomatch hlock) fun _ _ hlock => nomatch hlock) h

/-- What every run leaves as it was: the marks of jobs that are marked, and digests. -/
theorem lasting_of_reachable {c d : State}
    (hc : Reachable (alertSystem env site) anyQuery (.initial setting.db) c)
    (hd : Reachable (alertSystem env site) anyQuery c d) :
    Table.Grown Lasting c.db.jobs d.db.jobs ∧ Table.Grown Kept c.db.outbox d.db.outbox := by
  obtain ⟨hinv, ht⟩ := tracked_of_reachable hc
  obtain ⟨hR, -, -⟩ := (fullContract env site setting).rel_of_reachable (fun _ r => safe_serve r)
    (fun db db' => Table.Grown Lasting db.jobs db'.jobs ∧ Table.Grown Kept db.outbox db'.outbox)
    (fun db => ⟨fun _ => Lasting.refl _, fun _ => Kept.refl _⟩)
    (fun db₁ db₂ db₃ h h' => ⟨fun k => Lasting.trans _ _ _ (h.1 k) (h'.1 k),
      fun g => Kept.trans _ _ _ (h.2 g) (h'.2 g)⟩)
    (fun i db db' _ _ hg => ⟨hg.1.lasting, hg.1.kept⟩)
    (fun db n => ⟨fun _ => Lasting.refl _, fun _ => Kept.refl _⟩) hinv ht hd
  exact hR

/-- A match in a digest that is published has its line. -/
theorem Consistent.line {db : Db} (h : Consistent site setting db) {g : Uuid} {D : Outgoing}
    (hD : (db.outbox.slot g).committed = some D) {a : AlertMatch} (ha : a ∈ D.alerts) :
    Queued site db a g D := by
  have hrendered := h.digests g D (Or.inl hD)
  obtain ⟨jobs, he⟩ := hrendered.rendered
  refine ⟨hD, ha, (hrendered.owner a ha).symm, ?_⟩
  rw [he]
  exact unsubscribeUrl_infix site jobs ha

/-- **The step that marks a job** is taken by a process that holds it, and publishes with the
mark a digest for every search that matches the job. -/
theorem announced_of_step {c d : State}
    (hc : Reachable (alertSystem env site) anyQuery (.initial setting.db) c)
    (hstep : Step (alertSystem env site) anyQuery c d) {k : Uuid} (hnot : ¬ Marked c.db k)
    (hmarked : Marked d.db k) :
    ∃ i p p' now, c.db.jobs.slot k = ⟨some p, some (i, some p')⟩ ∧ p' = p.mark now ∧
      (d.db.jobs.slot k).committed = some p' ∧
      ∀ a ∈ alertsOf env c.db k, ∃ g D, (c.db.outbox.slot g).lock = some (i, some D) ∧
        Queued site d.db a g D := by
  obtain ⟨hinv, ht⟩ := tracked_of_reachable hc
  obtain ⟨hinv', -⟩ := tracked_of_reachable (hc.tail hstep)
  obtain hsame | ⟨i, hg, -⟩ | ⟨n, htime⟩ := (fullContract env site setting).guar_of_step hstep hinv ht
  · rw [hsame] at hmarked
    exact absurd hmarked hnot
  · obtain ⟨p, p', now, hslot, hp', hcommitted, halerts⟩ := hg.announces k hnot hmarked
    refine ⟨i, p, p', now, hslot, hp', hcommitted, fun a ha => ?_⟩
    obtain ⟨g, D, hlock, hmem, hD⟩ := halerts a ha
    exact ⟨g, D, hlock, hinv'.line hD hmem⟩
  · rw [htime] at hmarked
    exact absurd hmarked hnot

/-- **Alerts are never repeated and never half done.** No two published digests name one
search and one job. A job is marked at most once, and its mark is never changed. And it becomes
marked in a transaction that had queued, and publishes with it, a digest with a line for every
search that matches the job at that point. -/
theorem alerts_once {c : State}
    (hc : Reachable (alertSystem env site) anyQuery (.initial setting.db) c) :
    (∀ g g' D D', (c.db.outbox.slot g).committed = some D →
      (c.db.outbox.slot g').committed = some D' → Repeats D D' → g = g') ∧
    (∀ g D, (c.db.outbox.slot g).committed = some D → ∀ d,
      Reachable (alertSystem env site) anyQuery c d → (d.db.outbox.slot g).committed = some D) ∧
    (∀ k p, (c.db.jobs.slot k).committed = some p → p.marks.length ≤ 1 ∧
      (p.marked = true → ∀ d, Reachable (alertSystem env site) anyQuery c d →
        ∃ p', (d.db.jobs.slot k).committed = some p' ∧ p'.marks = p.marks ∧
          p'.alertsMatchedAt = p.alertsMatchedAt)) ∧
    ∀ d k, Step (alertSystem env site) anyQuery c d → ¬ Marked c.db k → Marked d.db k →
      ∃ i v, (c.db.jobs.slot k).lock = some (i, v) ∧
        ∀ a ∈ alertsOf env c.db k, ∃ g D, (c.db.outbox.slot g).lock = some (i, some D) ∧
          Queued site d.db a g D := by
  obtain ⟨hinv, -⟩ := tracked_of_reachable hc
  refine ⟨fun g g' D D' hD hD' => hinv.once g g' D D' (Or.inl hD) (Or.inl hD'),
    fun g D hD d hd => (lasting_of_reachable hc hd).2 g D hD,
    fun k p hp => ⟨(hinv.jobs.committed hp).2, fun hmarked d hd => ?_⟩,
    fun d k hstep hnot hmarked => ?_⟩
  · obtain ⟨p', hp', hmarks⟩ := (lasting_of_reachable hc hd).1 k p hp
    exact ⟨p', hp', hmarks hmarked⟩
  · obtain ⟨i, p, p', now, hslot, -, -, halerts⟩ := announced_of_step hc hstep hnot hmarked
    exact ⟨i, some p', congrArg Slot.lock hslot, halerts⟩

/-! ### A pass over one job -/

/-- A site, with as little markup as there can be. -/
def plainSite : Site where
  origin := "https://trades.example".toList
  unsubscribeToken := decimal
  formatUuid := decimal
  markup :=
    { escape := id
      shell := fun preheader body => preheader ++ body
      heading := id
      label := id
      paragraph := id
      link := fun url label => label ++ url
      footnote := id
      digestJob := fun url title facts => title ++ facts ++ url }

/-- One search for repairs, and its owner. -/
def repairsSetting : Setting where
  searches := [repairsSearch]
  nodup := List.nodup_singleton _
  accounts := [repairsOwner]
  tradeName := fun _ => none

theorem repairs_ordered : 50000 ≤ 80000 := by decide

/-- A job that the search is for. -/
def repairsJob : NewJob where
  postedByUserId := 7
  title := "Repipe a bathroom".toList
  description := "The copper under the upstairs bathroom has started to leak.".toList
  tradeId := some 36
  buildType := .repair
  jobSize := "One bathroom".toList
  budget := some ⟨50000, 80000, repairs_ordered⟩
  timeline := .asap
  postalCode := "90026".toList
  centroid := none

/-- Job `1` is posted, and a pass takes it up to its commit. -/
def passOver : List (Event ℕ Request) :=
  .arrive 0 (.post 1 repairsJob) :: List.replicate 3 (.run 0) ++
    .arrive 1 (.run id) :: List.replicate 8 (.run 1)

/-- Job `k` is marked, as a check. -/
def isMarked (db : Db) (k : Uuid) : Bool := (db.jobs.slot k).committed.any Posting.marked

theorem isMarked_iff {db : Db} {k : Uuid} : isMarked db k = true ↔ Marked db k := by
  simp [isMarked, Marked, Option.any_eq_true]

theorem alerts_once_repairs :
    ∃ c d i v, Reachable (alertSystem Search.Env.plain plainSite) anyQuery
        (.initial repairsSetting.db) c ∧
      Step (alertSystem Search.Env.plain plainSite) anyQuery c d ∧ ¬ Marked c.db 1 ∧
      Marked d.db 1 ∧ (c.db.jobs.slot 1).lock = some (i, v) ∧
      ∃ a g D, a ∈ alertsOf Search.Env.plain c.db 1 ∧ a.searchId = 5 ∧
        (c.db.outbox.slot g).lock = some (i, some D) ∧ Queued plainSite d.db a g D := by
  obtain ⟨c, d, -, hc, hstep, -, hP⟩ := exists_of_exec_step_exec
    (alertSystem Search.Env.plain plainSite) passOver (.run 1) [] (.initial repairsSetting.db)
    (fun c d _ => !isMarked c.db 1 && isMarked d.db 1 &&
      (alertsOf Search.Env.plain c.db 1).any fun a => a.searchId = 5)
    (by decide +kernel)
  simp only [Bool.and_eq_true, Bool.not_eq_true', ← Bool.not_eq_true, isMarked_iff,
    List.any_eq_true, decide_eq_true_eq] at hP
  obtain ⟨⟨hnot, hmarked⟩, a, ha, hsearch⟩ := hP
  obtain ⟨-, -, -, hmarks⟩ := alerts_once hc
  obtain ⟨i, v, hlock, halerts⟩ := hmarks d 1 hstep hnot hmarked
  obtain ⟨g, D, hD, hqueued⟩ := halerts a ha
  exact ⟨c, d, i, v, hc, hstep, hnot, hmarked, hlock, a, g, D, ha, hsearch, hD, hqueued⟩

/-! ### Jobs that are reopened -/

/-- **The proviso on reopening.** A job that is put back on the board was open when it was
marked, if it was. -/
def reopenFits {β : Type} (i : ℕ) : Query β → Db → Bool
  | .reopen k poster, db => (db.jobs.row i k).all fun p =>
    (p.reopen poster).isNone || p.marks.all fun status => status = .opened
  | _, _ => true

/-- The runs in which no job that was marked while it was closed is reopened. -/
def reopensFit : Proviso ℕ Db Query := fun i q db => reopenFits i q db = true

/-- An open job was open whenever it was marked. -/
def Fits (_ : Uuid) (p : Posting) : Prop := p.status = .opened → ∀ m ∈ p.marks, m = .opened

/-- **A query that fits keeps open jobs fitting.** -/
theorem fits_run {β : Type} {q : Query β} {i : ℕ} {db db' : Db} {b : β}
    (h : db.jobs.Holds Fits) (hC : reopensFit i q db) (hr : q.run i db = some (b, db')) :
    db'.jobs.Holds Fits := by
  have hupdate : ∀ {γ : Type} {k : Uuid} {f : Option Posting → γ × Option Posting} {c : γ}
      {t : Table ℕ Uuid Posting}, db.jobs.modify .tx i k f = some (c, t) →
      (∀ p', (f (db.jobs.row i k)).2 = some p' → Fits k p') → t.Holds Fits := by
    intro γ k f c t ht hf
    exact (Table.effect_of_modify (A := fun k _ p => Fits k p) ht hf).holds h fun _ _ hA => hA
  cases q with
  | insert k job now =>
    obtain ⟨⟨b', t⟩, ht, he⟩ := Option.map_eq_some_iff.mp hr
    cases he
    refine hupdate ht fun p hp => ?_
    obtain ⟨-, rfl⟩ := Table.inserting_cases hp
    exact fun _ m hm => absurd hm List.not_mem_nil
  | close k poster status now =>
    obtain ⟨⟨b', t⟩, ht, he⟩ := Option.map_eq_some_iff.mp hr
    cases he
    refine hupdate ht fun p' hp' => ?_
    obtain ⟨p, u, -, hclose⟩ := Table.updating_cases hp'
    rw [Posting.close] at hclose
    split at hclose
    · cases hclose
      exact fun hopen => absurd hopen status.2
    · cases hclose
  | reopen k poster =>
    obtain ⟨⟨b', t⟩, ht, he⟩ := Option.map_eq_some_iff.mp hr
    cases he
    refine hupdate ht fun p' hp' => ?_
    obtain ⟨p, u, hrow, hreopen⟩ := Table.updating_cases hp'
    have hC : (p.reopen poster).isNone || p.marks.all (fun status => status = .opened) = true := by
      have hC : reopenFits i (.reopen k poster) db = true := hC
      simpa [reopenFits, hrow] using hC
    rw [hreopen] at hC
    have hmarks : p'.marks = p.marks := by
      rw [Posting.reopen] at hreopen
      split at hreopen
      · cases hreopen
        rfl
      · cases hreopen
    intro _ m hm
    rw [hmarks] at hm
    have hall : ∀ m ∈ p.marks, m = JobStatus.opened := by simpa using hC
    exact hall m hm
  | claim k =>
    obtain ⟨⟨b', t⟩, ht, he⟩ := Option.map_eq_some_iff.mp hr
    cases he
    rcases Table.skipLocked_cases ht with ht | ⟨-, rfl⟩
    · refine hupdate ht fun p' hp' => ?_
      obtain ⟨p, u, hrow, hclaim⟩ := Table.updating_cases hp'
      rw [Posting.claim] at hclaim
      split at hclaim
      · cases hclaim
        exact h.row hrow
      · cases hclaim
    · exact h
  | enqueue k digest =>
    obtain ⟨⟨b', t⟩, ht, he⟩ := Option.map_eq_some_iff.mp hr
    cases he
    exact h
  | touch k now =>
    obtain ⟨⟨b', t⟩, ht, he⟩ := Option.map_eq_some_iff.mp hr
    cases he
    exact h
  | mark k now =>
    obtain ⟨⟨b', t⟩, ht, he⟩ := Option.map_eq_some_iff.mp hr
    cases he
    refine hupdate ht fun p' hp' => ?_
    obtain ⟨p, u, hrow, hmark⟩ := Table.updating_cases hp'
    cases hmark
    intro hopen m hm
    rcases List.mem_append.mp hm with hm | hm
    · exact h.row hrow hopen m hm
    · rw [List.mem_singleton.mp hm]
      exact hopen
  | commit =>
    cases hr
    exact fun k p hp => h k p (Slot.version_commit hp)
  | rollback =>
    cases hr
    exact fun k p hp => h k p (Slot.version_rollback hp)

/-- **Every job that is open and marked was announced**, in the runs that fit: some step marked
it; and in any step that did, it was open, and each search that it matched then has its line in
a published digest. -/
theorem open_was_announced {d : State}
    (hd : Reachable (alertSystem env site) reopensFit (.initial setting.db) d) {k : Uuid}
    {p : Posting} (hp : (d.db.jobs.slot k).committed = some p) (hopen : p.status = .opened)
    (hmarked : p.marked = true) :
    (∃ c c', Reachable (alertSystem env site) reopensFit (.initial setting.db) c ∧
      Step (alertSystem env site) reopensFit c c' ∧
      Reachable (alertSystem env site) reopensFit c' d ∧ ¬ Marked c.db k ∧ Marked c'.db k) ∧
    ∀ c c', Reachable (alertSystem env site) reopensFit (.initial setting.db) c →
      Step (alertSystem env site) reopensFit c c' →
      Reachable (alertSystem env site) reopensFit c' d → ¬ Marked c.db k → Marked c'.db k →
      (∃ q, (c.db.jobs.slot k).committed = some q ∧ q.status = .opened) ∧
        ∀ a ∈ alertsOf env c.db k, ∃ g D, Queued site d.db a g D := by
  have hfits : d.db.jobs.Holds Fits := by
    refine invariant_of_run (fun db : Db => db.jobs.Holds Fits)
      (fun q i db b db' h hC hr => fits_run h hC hr) (fun _ _ h => h) ?_ hd
    rintro k p (hp | ⟨j, hp⟩) <;> cases hp
  refine ⟨hd.exists_step (fun db => Marked db k) (fun ⟨q, hq, _⟩ => nomatch hq)
    ⟨p, hp, hmarked⟩, fun c c' hc hstep hd' hnot hmarked' => ?_⟩
  have hc₀ := Reachable.any hc
  have hc₁ : Reachable (alertSystem env site) anyQuery (.initial setting.db) c' :=
    hc₀.tail hstep.any
  obtain ⟨i, q, q', now, hslot, rfl, hq', halerts⟩ :=
    announced_of_step hc₀ hstep.any hnot hmarked'
  have hq : (c.db.jobs.slot k).committed = some q := congrArg Slot.committed hslot
  obtain ⟨hlasting, hkept⟩ := lasting_of_reachable hc₁ (Reachable.any hd')
  refine ⟨⟨q, hq, ?_⟩, fun a ha => ?_⟩
  · -- the marks of the job are those it had after that step
    obtain ⟨p', hp', hmarks⟩ := hlasting k (q.mark now) hq'
    obtain rfl : p = p' := Option.some.inj (hp.symm.trans hp')
    refine hfits k p (Or.inl hp) hopen q.status ?_
    rw [(hmarks rfl).1]
    exact List.mem_append_right _ (List.mem_singleton.mpr rfl)
  · obtain ⟨g, D, -, hD, hline⟩ := halerts a ha
    exact ⟨g, D, hkept g D hD, hline⟩

/-- The pass commits, and its job is closed and reopened. -/
def reopenedLater : List (Event ℕ Request) :=
  .arrive 2 (.close 7 1 .closed) :: List.replicate 4 (.run 2) ++
    .arrive 3 (.reopen 7 1) :: List.replicate 3 (.run 3)

/-- Job `k` is open and marked. -/
def isOpenAndMarked (db : Db) (k : Uuid) : Bool :=
  (db.jobs.slot k).committed.any fun p => p.status = .opened && p.marked

theorem isOpenAndMarked_iff {db : Db} {k : Uuid} : isOpenAndMarked db k = true ↔
    ∃ p, (db.jobs.slot k).committed = some p ∧ p.status = .opened ∧ p.marked = true := by
  simp [isOpenAndMarked, Option.any_eq_true]

theorem open_was_announced_repairs :
    ∃ d p, Reachable (alertSystem Search.Env.plain plainSite) reopensFit
        (.initial repairsSetting.db) d ∧
      (d.db.jobs.slot 1).committed = some p ∧ p.status = .opened ∧ p.marked = true ∧
      ∃ c c', Reachable (alertSystem Search.Env.plain plainSite) reopensFit
          (.initial repairsSetting.db) c ∧
        Step (alertSystem Search.Env.plain plainSite) reopensFit c c' ∧
        Reachable (alertSystem Search.Env.plain plainSite) reopensFit c' d ∧
        ∃ q, (c.db.jobs.slot 1).committed = some q ∧ q.status = .opened := by
  obtain ⟨d, hd, hP⟩ := exists_of_exec
    ((alertSystem Search.Env.plain plainSite).guarded reopenFits)
    (passOver ++ .run 1 :: reopenedLater) (.initial repairsSetting.db)
    (fun d => isOpenAndMarked d.db 1) (by decide +kernel)
  obtain ⟨p, hp, hopen, hmarked⟩ := isOpenAndMarked_iff.mp hP
  have hd : Reachable (alertSystem Search.Env.plain plainSite) reopensFit
      (.initial repairsSetting.db) d := reachable_of_guarded (fun _ _ _ h => h) hd
  obtain ⟨⟨c, c', hc, hstep, hd', hnot, hmarked'⟩, hall⟩ :=
    open_was_announced hd hp hopen hmarked
  obtain ⟨hq, -⟩ := hall c c' hc hstep hd' hnot hmarked'
  exact ⟨d, p, hd, hp, hopen, hmarked, c, c', hc, hstep, hd', hq⟩

/-- Job `1` is posted and closed, and a pass takes it up to its commit. -/
def closedFirst : List (Event ℕ Request) :=
  .arrive 0 (.post 1 repairsJob) :: List.replicate 3 (.run 0) ++
    .arrive 2 (.close 7 1 .closed) :: List.replicate 4 (.run 2) ++
    .arrive 1 (.run id) :: List.replicate 5 (.run 1)

/-- The job is reopened after the pass. -/
def reopenedAfter : List (Event ℕ Request) :=
  .arrive 3 (.reopen 7 1) :: List.replicate 3 (.run 3)

/-- Job `k` is closed. -/
def isClosed (db : Db) (k : Uuid) : Bool :=
  (db.jobs.slot k).committed.any fun p => p.status = .closed

/-- **An open job is shut out of alerts**: a pass marked it while it was closed, nothing was
queued, and it has been put back on the board, where a saved search is for it. -/
theorem open_was_not_announced :
    ∃ c c' d, Reachable (alertSystem Search.Env.plain plainSite) anyQuery
        (.initial repairsSetting.db) c ∧
      Step (alertSystem Search.Env.plain plainSite) anyQuery c c' ∧
      Reachable (alertSystem Search.Env.plain plainSite) anyQuery c' d ∧
      ¬ Marked c.db 1 ∧ Marked c'.db 1 ∧
      (∃ q, (c.db.jobs.slot 1).committed = some q ∧ q.status = .closed) ∧
      (∃ p, (d.db.jobs.slot 1).committed = some p ∧ p.status = .opened ∧ p.marked = true) ∧
      (∃ a ∈ alertsOf Search.Env.plain d.db 1, a.searchId = 5) ∧ d.db.outbox.keys = [] := by
  obtain ⟨c, c', d, hc, hstep, hd, hP⟩ := exists_of_exec_step_exec
    (alertSystem Search.Env.plain plainSite) closedFirst (.run 1) reopenedAfter
    (.initial repairsSetting.db)
    (fun c c' d => !isMarked c.db 1 && isMarked c'.db 1 && isClosed c.db 1 &&
      isOpenAndMarked d.db 1 && ((alertsOf Search.Env.plain d.db 1).any fun a => a.searchId = 5) &&
      decide (d.db.outbox.keys = []))
    (by decide +kernel)
  simp only [Bool.and_eq_true, Bool.not_eq_true', ← Bool.not_eq_true, isMarked_iff,
    isOpenAndMarked_iff, List.any_eq_true, decide_eq_true_eq, isClosed, Option.any_eq_true] at hP
  obtain ⟨⟨⟨⟨⟨hnot, hmarked⟩, hclosed⟩, hopen⟩, halert⟩, hempty⟩ := hP
  exact ⟨c, c', d, hc, hstep, hd, hnot, hmarked, hclosed, hopen, halert, hempty⟩

end Marketplace.Alerts
