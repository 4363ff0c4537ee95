import Marketplace.Alerts.Pass

/-!
# The contract of the alert pass

A pass holds the rows of the jobs it claimed until it commits, and nobody else writes them
meanwhile. So a digest that is queued and not yet published is about jobs that its process
holds and that are not marked in what is published (`Marketplace.Alerts.Consistent.pending`),
and one that is published is about jobs that are marked
(`Marketplace.Alerts.Consistent.queued`): two digests about one search and one job would have
to be of one batch, where there is one for each account.

The contract of the processes (`Marketplace.Alerts.contract`) asks more of a step that marks
a job: that it publishes, with the mark, a digest for every search that matches the job.
The full one (`Marketplace.Alerts.fullContract`) adds that what a step publishes has one digest
for each account, about all the matches of that account (`Marketplace.Alerts.OneEach`).
-/

namespace Marketplace.Alerts

open Board ReadCommitted

variable {env : Search.Env} {site : Site} {setting : Setting}

/-! ### What lasts -/

/-- The version keeps the marks of the one before. -/
def Lasting (o o' : Option Posting) : Prop :=
  ∀ p, o = some p → ∃ p', o' = some p' ∧
    (p.marked = true → p'.marks = p.marks ∧ p'.alertsMatchedAt = p.alertsMatchedAt)

theorem Lasting.refl (o : Option Posting) : Lasting o o := fun p hp => ⟨p, hp, fun _ => ⟨rfl, rfl⟩⟩

theorem Lasting.trans (o₁ o₂ o₃ : Option Posting) (h : Lasting o₁ o₂) (h' : Lasting o₂ o₃) :
    Lasting o₁ o₃ := by
  intro p hp
  obtain ⟨p₂, hp₂, hmarks⟩ := h p hp
  obtain ⟨p₃, hp₃, hmarks'⟩ := h' p₂ hp₂
  refine ⟨p₃, hp₃, fun hmarked => ?_⟩
  obtain ⟨hm, ht⟩ := hmarks hmarked
  obtain ⟨hm', ht'⟩ := hmarks' (by rw [Posting.marked, ht]; exact hmarked)
  exact ⟨hm'.trans hm, ht'.trans ht⟩

theorem Lasting.marked {p p' : Posting} (h : Lasting (some p) (some p')) (hp : p.marked = true) :
    p'.marked = true := by
  obtain ⟨p₂, hp₂, hmarks⟩ := h p rfl
  obtain rfl := Option.some.inj hp₂
  rw [Posting.marked, (hmarks hp).2]
  exact hp

/-- The digest that was there is still there. -/
def Kept (o o' : Option Outgoing) : Prop := ∀ D, o = some D → o' = some D

theorem Kept.refl (o : Option Outgoing) : Kept o o := fun _ h => h

theorem Kept.trans (o₁ o₂ o₃ : Option Outgoing) (h : Kept o₁ o₂) (h' : Kept o₂ o₃) :
    Kept o₁ o₃ := fun D hD => h' D (h D hD)

/-- A search without the time of its last notice. -/
def unnotified (s : SavedSearch) : SavedSearch := { s with lastNotifiedAt := none }

/-- The two versions are one search, but for the time of its last notice. -/
def SameSearch (o o' : Option SavedSearch) : Prop := o.map unnotified = o'.map unnotified

theorem SameSearch.refl (o : Option SavedSearch) : SameSearch o o := Eq.refl _

theorem SameSearch.trans (o₁ o₂ o₃ : Option SavedSearch) (h : SameSearch o₁ o₂)
    (h' : SameSearch o₂ o₃) : SameSearch o₁ o₃ := Eq.trans h h'

/-! ### The invariant -/

/-- Process `i` holds job `k`, which is not marked in what is published. -/
def Claimed (i : ℕ) (k : Uuid) (db : Db) : Prop :=
  ∃ p p', db.jobs.slot k = ⟨some p, some (i, some p')⟩ ∧ p.marked = false

/-- A digest is what is rendered for its account, of matches of searches of that account. -/
structure Rendered (site : Site) (setting : Setting) (D : Outgoing) : Prop where
  rendered : ∃ jobs, D = outgoing site jobs D.userId D.alerts
  owner : ∀ a ∈ D.alerts, a.userId = D.userId
  search : ∀ a ∈ D.alerts, ∃ s ∈ setting.searches, s.id = a.searchId ∧ s.userId = a.userId

/-- Two digests that name one search and one job. -/
def Repeats (D D' : Outgoing) : Prop :=
  ∃ a ∈ D.alerts, ∃ a' ∈ D'.alerts, a.searchId = a'.searchId ∧ a.jobId = a'.jobId

/-- **The store is consistent.** -/
structure Consistent (site : Site) (setting : Setting) (db : Db) : Prop where
  accounts : db.accounts = setting.accounts
  searches_ordered : db.searches.Ordered SameSearch
  searches_kept : ∀ k, SameSearch (setting.db.searches.slot k).committed
    (db.searches.slot k).committed
  /-- A job is stored under its identifier, and was marked at most once. -/
  jobs : db.jobs.Holds fun k p => p.id = k ∧ p.marks.length ≤ 1
  jobs_ordered : db.jobs.Ordered Lasting
  digests : db.outbox.Holds fun _ D => Rendered site setting D
  digests_ordered : db.outbox.Ordered Kept
  /-- A digest that is not published is about jobs that its process holds. -/
  pending : ∀ g i D, (db.outbox.slot g).lock = some (i, some D) → ∀ a ∈ D.alerts,
    Claimed i a.jobId db
  /-- A digest that is published is about jobs that are marked. -/
  queued : ∀ g D, (db.outbox.slot g).committed = some D → ∀ a ∈ D.alerts, Marked db a.jobId
  /-- No two digests name one search and one job. -/
  once : ∀ g g' D D', (db.outbox.slot g).Version D → (db.outbox.slot g').Version D' →
    Repeats D D' → g = g'

/-! ### The guarantee -/

/-- **A step of process `i` that marks a job** publishes with the mark a digest for every
search that matches it. -/
def Announces (env : Search.Env) (i : ℕ) (db db' : Db) : Prop :=
  ∀ k, ¬ Marked db k → Marked db' k →
    ∃ p p' now, db.jobs.slot k = ⟨some p, some (i, some p')⟩ ∧ p' = p.mark now ∧
      (db'.jobs.slot k).committed = some p' ∧
      ∀ a ∈ alertsOf env db k, ∃ g D, (db.outbox.slot g).lock = some (i, some D) ∧
        a ∈ D.alerts ∧ (db'.outbox.slot g).committed = some D

/-- **What one step of a process may do.** -/
structure Guaranteed (env : Search.Env) (i : ℕ) (db db' : Db) : Prop where
  jobs : Table.Moves i db.jobs db'.jobs
  outbox : Table.Moves i db.outbox db'.outbox
  lasting : Table.Grown Lasting db.jobs db'.jobs
  kept : Table.Grown Kept db.outbox db'.outbox
  announces : Announces env i db db'

/-- A step that publishes no job marks none. -/
theorem announces_of_committed {i : ℕ} {db db' : Db}
    (h : ∀ k, (db'.jobs.slot k).committed = (db.jobs.slot k).committed) :
    Announces env i db db' := by
  intro k hnot hmarked
  rw [Marked, h k] at hmarked
  exact absurd hmarked hnot

/-- Rolling back keeps the invariant and the guarantee. -/
theorem Consistent.rollback {i : ℕ} {db : Db} (h : Consistent site setting db) :
    Consistent site setting (db.rollback i) ∧ Guaranteed env i db (db.rollback i) := by
  have hcommitted : ∀ k, ((db.rollback i).jobs.slot k).committed = (db.jobs.slot k).committed :=
    fun k => Slot.rollback_committed
  refine ⟨⟨h.accounts, fun k => (h.searches_ordered k).rollback, fun k => ?_,
    fun k p hp => h.jobs k p (Slot.version_rollback hp), fun k => (h.jobs_ordered k).rollback,
    fun g D hD => h.digests g D (Slot.version_rollback hD),
    fun k => (h.digests_ordered k).rollback, fun g j D hD a ha => ?_,
    fun g D hD a ha => ?_, fun g g' D D' hD hD' => h.once g g' D D' (Slot.version_rollback hD)
      (Slot.version_rollback hD')⟩, ?_⟩
  · change SameSearch _ ((db.searches.slot k).rollback i).committed
    rw [Slot.rollback_committed]
    exact h.searches_kept k
  · obtain ⟨hne, hlock⟩ := Slot.lock_of_rollback hD
    obtain ⟨p, p', hslot, hp⟩ := h.pending g j D hlock a ha
    refine ⟨p, p', ?_, hp⟩
    change (db.jobs.slot a.jobId).rollback i = _
    rw [Slot.rollback_of_other (congrArg Slot.lock hslot) hne, hslot]
  · have hD : (db.outbox.slot g).committed = some D := by
      rw [← Slot.rollback_committed (i := i)]
      exact hD
    obtain ⟨p, hp, hmarked⟩ := h.queued g D hD a ha
    exact ⟨p, (hcommitted a.jobId).trans hp, hmarked⟩
  · refine ⟨Table.moves_rollback i _, Table.moves_rollback i _, fun k => ?_, fun k D hD => ?_,
      announces_of_committed hcommitted⟩
    · rw [hcommitted k]
      exact Lasting.refl _
    · exact (Slot.rollback_committed (i := i) (x := db.outbox.slot k)).trans hD

/-- **The contract**: the store stays consistent, and a job is marked with its digests. -/
def contract (env : Search.Env) (site : Site) (setting : Setting) :
    Contract (alertSystem env site) anyQuery where
  inv := Consistent site setting
  guar := Guaranteed env
  inv_tick _ h := ⟨h.accounts, h.searches_ordered, h.searches_kept, h.jobs, h.jobs_ordered,
    h.digests, h.digests_ordered, h.pending, h.queued, h.once⟩
  rollback h _ hr := by
    cases hr
    exact h.rollback

/-! ### One digest for each account -/

/-- The digest is published by the step. -/
def Issued (db db' : Db) (g : Uuid) (D : Outgoing) : Prop :=
  (db.outbox.slot g).committed = none ∧ (db'.outbox.slot g).committed = some D

/-- **What a step publishes is one digest for each account**: no account has two, and that of an
account is made of what should alert it about the jobs that the step marks. -/
structure OneEach (env : Search.Env) (db db' : Db) : Prop where
  one : ∀ g g' D D', Issued db db' g D → Issued db db' g' D' → D.userId = D'.userId → g = g'
  alerts : ∀ g D, Issued db db' g D → ∀ a, a ∈ D.alerts ↔ a.userId = D.userId ∧
    ¬ Marked db a.jobId ∧ Marked db' a.jobId ∧ a ∈ alertsOf env db a.jobId

/-- A step that publishes no digest. -/
theorem oneEach_of_committed {db db' : Db}
    (h : ∀ g, (db'.outbox.slot g).committed = (db.outbox.slot g).committed) :
    OneEach env db db' := by
  have hnone : ∀ g D, ¬ Issued db db' g D := by
    rintro g D ⟨hnone, hD⟩
    rw [h g, hnone] at hD
    cases hD
  exact ⟨fun g _ D _ hD => absurd hD (hnone g D), fun g D hD => absurd hD (hnone g D)⟩

/-- The query ends a transaction and publishes it. -/
def Query.publishes {β : Type} : Query β → Bool
  | .commit => true
  | _ => false

/-- Only a commit publishes a digest. -/
theorem oneEach_run {i : ℕ} {db db' : Db} {β : Type} {q : Query β} {b : β}
    (hq : q.publishes = false) (hr : q.run i db = some (b, db')) : OneEach env db db' := by
  refine oneEach_of_committed fun g => ?_
  cases q with
  | commit => cases hq
  | rollback =>
    cases hr
    exact Slot.rollback_committed
  | enqueue k digest =>
    obtain ⟨⟨b', t⟩, ht, he⟩ := Option.map_eq_some_iff.mp hr
    cases he
    exact Table.committed_modify ht g
  | _ =>
    obtain ⟨⟨b', t⟩, -, he⟩ := Option.map_eq_some_iff.mp hr
    cases he
    rfl

/-- **The contract, with one digest for each account.** -/
abbrev fullContract (env : Search.Env) (site : Site) (setting : Setting) :
    Contract (alertSystem env site) anyQuery :=
  (contract env site setting).adding (fun _ => OneEach env) fun _ _ _ hr =>
    oneEach_run (show Query.rollback.publishes = false from rfl) hr

/-- A program that publishes nothing meets the full contract, if it meets the other. -/
theorem safe_full {i : ℕ} {γ : Type} {p : Prog ℕ Db Query γ}
    {post : γ → Assertion (contract env site setting) i}
    {P : Assertion (contract env site setting) i} (h : Safe post p P)
    (hp : p.Each fun q => q.publishes = false) :
    Safe (fun a => ((post a).adding : Assertion (fullContract env site setting) i)) p P.adding :=
  h.adding (hp.mono fun _ hq _ _ _ hr => oneEach_run hq hr)

/-! ### What the queries keep -/

section Queries

variable {i j : ℕ} {k g : Uuid} {db : Db} {β : Type} {b : β}

/-- A statement on a job whose new version is of that job, and keeps its marks. -/
theorem Consistent.modify_job (h : Consistent site setting db) {t : Table ℕ Uuid Posting}
    {f : Option Posting → β × Option Posting} (hr : db.jobs.modify .tx i k f = some (b, t))
    (hf : ∀ p, (f (db.jobs.row i k)).2 = some p →
      (p.id = k ∧ p.marks.length ≤ 1) ∧ Lasting (db.jobs.row i k) (some p)) :
    Consistent site setting { db with jobs := t } ∧
      Guaranteed env i db { db with jobs := t } := by
  have heffect : db.jobs.Effect (fun l o p =>
      (p.id = l ∧ p.marks.length ≤ 1) ∧ Lasting o (some p)) i t := Table.effect_of_modify hr hf
  have hcommitted : ∀ l, (t.slot l).committed = (db.jobs.slot l).committed :=
    Table.committed_modify hr
  obtain ⟨hordered, hgrown⟩ := heffect.ordered Lasting.refl Lasting.trans h.jobs_ordered
    fun _ _ hA => hA.2
  have hclaimed : ∀ j l, Claimed j l db → Claimed j l { db with jobs := t } := by
    rintro j l ⟨p, p', hslot, hp⟩
    have hlock : (db.jobs.slot l).lock = some (j, some p') := congrArg Slot.lock hslot
    rcases eq_or_ne j i with rfl | hne
    · rcases Table.modify_cases hr with ⟨-, -, ⟨-, rfl⟩ | ⟨r, -, rfl⟩⟩
      · exact ⟨p, p', hslot, hp⟩
      · rcases eq_or_ne l k with rfl | hlk
        · refine ⟨p, r, ?_, hp⟩
          change (db.jobs.put l _).slot l = _
          rw [Table.slot_put_self, hslot]
          rfl
        · refine ⟨p, p', ?_, hp⟩
          change (db.jobs.put k _).slot l = _
          rw [Table.slot_put_of_ne hlk, hslot]
    · refine ⟨p, p', ?_, hp⟩
      exact ((heffect.moves l).eq_of_held hlock hne).trans hslot
  refine ⟨⟨h.accounts, h.searches_ordered, h.searches_kept, heffect.holds h.jobs fun _ _ hA => hA.1,
    hordered, h.digests, h.digests_ordered, fun g j D hD a ha => hclaimed j _ (h.pending g j D hD a ha),
    fun g D hD a ha => ?_, h.once⟩,
    heffect.moves, Table.Moves.refl i _, hgrown, fun _ => Kept.refl _,
    announces_of_committed hcommitted⟩
  obtain ⟨p, hp, hmarked⟩ := h.queued g D hD a ha
  exact ⟨p, (hcommitted _).trans hp, hmarked⟩

/-- Recording a notice. -/
theorem Consistent.touch (h : Consistent site setting db) {t : Table ℕ Uuid SavedSearch}
    {now : Instant} {u : Option Unit}
    (hr : db.searches.modify .tx i k (Table.updating fun s => some ((), s.touchNotified now)) =
      some (u, t)) :
    Consistent site setting { db with searches := t } ∧
      Guaranteed env i db { db with searches := t } := by
  have heffect : db.searches.Effect (fun _ o s => SameSearch o (some s)) i t := by
    refine Table.effect_of_modify hr fun s' hs' => ?_
    obtain ⟨s, u', hrow, hs⟩ := Table.updating_cases hs'
    cases hs
    rw [hrow]
    rfl
  obtain ⟨hordered, hgrown⟩ := heffect.ordered SameSearch.refl SameSearch.trans h.searches_ordered
    fun _ _ hA => hA
  exact ⟨⟨h.accounts, hordered, fun l => SameSearch.trans _ _ _ (h.searches_kept l) (hgrown l), h.jobs,
    h.jobs_ordered, h.digests, h.digests_ordered, h.pending, h.queued, h.once⟩,
    Table.Moves.refl i _, Table.Moves.refl i _, fun _ => Lasting.refl _, fun _ => Kept.refl _,
    announces_of_committed fun _ => rfl⟩

/-- Queueing a digest about jobs that the process holds, for an account that it has queued none
for. -/
theorem Consistent.enqueue (h : Consistent site setting db) {t : Table ℕ Uuid Outgoing}
    {D : Outgoing} {inserted : Bool}
    (hr : db.outbox.modify .tx i g (Table.inserting D) = some (inserted, t))
    (hD : Rendered site setting D) (hclaimed : ∀ a ∈ D.alerts, Claimed i a.jobId db)
    (hother : ∀ g' D', (db.outbox.slot g').lock = some (i, some D') → D'.userId ≠ D.userId) :
    Consistent site setting { db with outbox := t } ∧
      Guaranteed env i db { db with outbox := t } := by
  have heffect : db.outbox.Effect (fun _ o D' => D' = D ∧ Kept o (some D')) i t := by
    refine Table.effect_of_modify hr fun D' hD' => ?_
    obtain ⟨hrow, he⟩ := Table.inserting_cases hD'
    exact ⟨he, by rw [hrow]; nofun⟩
  obtain ⟨hordered, hgrown⟩ := heffect.ordered Kept.refl Kept.trans h.digests_ordered
    fun _ _ hA => hA.2
  -- a version that was there before does not repeat the new one
  have hnew : ∀ g' D', (db.outbox.slot g').Version D' → ¬ Repeats D D' := by
    rintro g' D' hversion ⟨a, ha, a', ha', hsearch, hjob⟩
    obtain ⟨p, p', hslot, hp⟩ := hclaimed a ha
    rcases hversion with hcommitted | ⟨j, hlock⟩
    · obtain ⟨q, hq, hmarked⟩ := h.queued g' D' hcommitted a' ha'
      rw [← hjob, hslot] at hq
      obtain rfl := Option.some.inj hq
      rw [hp] at hmarked
      cases hmarked
    · obtain ⟨q, q', hslot', -⟩ := h.pending g' j D' hlock a' ha'
      rw [← hjob, hslot] at hslot'
      obtain rfl : i = j := by
        simp only [Slot.mk.injEq, Option.some.injEq, Prod.mk.injEq] at hslot'
        exact hslot'.2.1
      -- one search has one account
      have hD' := h.digests g' D' (Or.inr ⟨i, hlock⟩)
      obtain ⟨s, hs, hid, huser⟩ := hD.search a ha
      obtain ⟨s', hs', hid', huser'⟩ := hD'.search a' ha'
      obtain rfl : s = s' := List.inj_on_of_nodup_map setting.nodup hs hs'
        (by rw [hid, hid', hsearch])
      refine hother g' D' hlock ?_
      rw [← hD'.owner a' ha', ← huser', huser, hD.owner a ha]
  have hold : ∀ g' D', (t.slot g').Version D' →
      (db.outbox.slot g').Version D' ∨ g' = g ∧ D' = D := by
    intro g' D' hversion
    obtain ⟨-, -, ⟨-, rfl⟩ | ⟨r, hput, rfl⟩⟩ := Table.modify_cases hr
    · exact Or.inl hversion
    · obtain ⟨-, rfl⟩ := Table.inserting_cases hput
      rcases eq_or_ne g' g with rfl | hne
      · rw [Table.slot_put_self] at hversion
        rcases Slot.version_put hversion with rfl | hversion
        · exact Or.inr ⟨rfl, rfl⟩
        · exact Or.inl hversion
      · rw [Table.slot_put_of_ne hne] at hversion
        exact Or.inl hversion
  refine ⟨⟨h.accounts, h.searches_ordered, h.searches_kept, h.jobs, h.jobs_ordered,
    heffect.holds h.digests fun _ _ hA => hA.1 ▸ hD, hordered, fun g' j D' hlock a ha => ?_,
    fun g' D' hcommitted a ha => ?_, fun g₁ g₂ D₁ D₂ hv₁ hv₂ hrep => ?_⟩,
    Table.Moves.refl i _, heffect.moves, fun _ => Lasting.refl _, hgrown,
    announces_of_committed fun _ => rfl⟩
  · rcases eq_or_ne j i with rfl | hne
    · rcases Table.lock_modify hr hlock with hlock | ⟨-, r, hput, he⟩
      · exact h.pending g' j D' hlock a ha
      · obtain ⟨-, rfl⟩ := Table.inserting_cases hput
        obtain rfl := Option.some.inj he
        exact hclaimed a ha
    · exact h.pending g' j D' ((heffect.moves g').lock_of_other hlock hne) a ha
  · refine h.queued g' D' ?_ a ha
    rw [← Table.committed_modify hr g']
    exact hcommitted
  · rcases hold g₁ D₁ hv₁ with hold₁ | ⟨rfl, rfl⟩ <;> rcases hold g₂ D₂ hv₂ with hold₂ | ⟨rfl, rfl⟩
    · exact h.once g₁ g₂ D₁ D₂ hold₁ hold₂ hrep
    · obtain ⟨a, ha, a', ha', hs, hj⟩ := hrep
      exact absurd ⟨a', ha', a, ha, hs.symm, hj.symm⟩ (hnew g₁ D₁ hold₁)
    · exact absurd hrep (hnew g₂ D₂ hold₂)
    · rfl

/-- Committing, when every job that a digest is about is marked. -/
theorem Consistent.commit (h : Consistent site setting db)
    (hmarked : ∀ g D, (db.outbox.slot g).lock = some (i, some D) → ∀ a ∈ D.alerts,
      ∃ p, (db.jobs.slot a.jobId).lock = some (i, some p) ∧ p.marked = true)
    (hannounces : Announces env i db (db.commit i)) :
    Consistent site setting (db.commit i) ∧ Guaranteed env i db (db.commit i) := by
  have hjobs : db.jobs.Effect (fun l o p => Lasting o (some p)) i (db.jobs.commit i) := .commit _
  have hsearches : db.searches.Effect (fun _ o s => SameSearch o (some s)) i
    (db.searches.commit i) := .commit _
  obtain ⟨hordered, hgrown⟩ := hjobs.ordered Lasting.refl Lasting.trans h.jobs_ordered
    fun _ _ hA => hA
  obtain ⟨hordered', hgrown'⟩ := hsearches.ordered SameSearch.refl SameSearch.trans h.searches_ordered
    fun _ _ hA => hA
  refine ⟨⟨h.accounts, hordered', fun l => SameSearch.trans _ _ _ (h.searches_kept l) (hgrown' l),
    fun l p hp => h.jobs l p (Slot.version_commit hp), hordered,
    fun g D hD => h.digests g D (Slot.version_commit hD),
    fun g => (h.digests_ordered g).commit, fun g j D hD a ha => ?_,
    fun g D hD a ha => ?_, fun g g' D D' hD hD' => h.once g g' D D' (Slot.version_commit hD)
      (Slot.version_commit hD')⟩,
    Table.moves_commit i _, Table.moves_commit i _, hgrown,
    fun g => (h.digests_ordered g).le_commit Kept.refl, hannounces⟩
  · obtain ⟨hne, hlock⟩ := Slot.lock_of_commit hD
    obtain ⟨p, p', hslot, hp⟩ := h.pending g j D hlock a ha
    refine ⟨p, p', ?_, hp⟩
    change (db.jobs.slot a.jobId).commit i = _
    rw [Slot.commit_of_other (congrArg Slot.lock hslot) hne, hslot]
  · -- the digest was published before, or this commit publishes it
    have hvisible : (db.outbox.slot g).visible i = some D := by
      rw [← Slot.commit_committed]
      exact hD
    rcases Slot.visible_cases i (db.outbox.slot g) with hlock | hsame
    · rw [hvisible] at hlock
      obtain ⟨p, hp, hpmarked⟩ := hmarked g D hlock a ha
      refine ⟨p, ?_, hpmarked⟩
      change ((db.jobs.slot a.jobId).commit i).committed = _
      rw [Slot.commit_of_held hp]
    · rw [hvisible] at hsame
      obtain ⟨p, hp, hpmarked⟩ := h.queued g D hsame.symm a ha
      obtain ⟨p', hp', hmarks⟩ := hgrown a.jobId p hp
      refine ⟨p', hp', ?_⟩
      rw [Posting.marked, (hmarks hpmarked).2]
      exact hpmarked

end Queries

/-! ### Small requests -/

section Plain

variable {i : ℕ} {k : Uuid} {db : Db}

/-- Process `i` has queued no digest, and the jobs it holds are marked only if they are so in
what is published. -/
structure Plain (i : ℕ) (db : Db) : Prop where
  outbox : ∀ g v, (db.outbox.slot g).lock ≠ some (i, v)
  jobs : ∀ k v, (db.jobs.slot k).lock = some (i, v) →
    ∃ p, v = some p ∧ (p.marked = true → Marked db k)

variable (env site setting i) in
/-- It stays so whatever the others do. -/
def plain : Assertion (contract env site setting) i where
  holds := Plain i
  stable := by
    intro j db db' hne _ _ hg h
    refine ⟨fun g v hlock => ?_, fun k v hlock => ?_⟩
    · exact h.outbox g v ((hg.outbox.lock_iff hne).mp hlock)
    · have hlock := (hg.jobs.lock_iff hne).mp hlock
      obtain ⟨p, hv, hmarked⟩ := h.jobs k v hlock
      refine ⟨p, hv, fun hp => ?_⟩
      obtain ⟨q, hq, hqmarked⟩ := hmarked hp
      exact ⟨q, by rw [(hg.jobs k).eq_of_held hlock hne.symm, hq], hqmarked⟩
  tick _ _ h := ⟨h.outbox, h.jobs⟩

/-- A statement whose new version is marked only if the row it is put over is. -/
theorem Plain.modify_job {β : Type} {b : β} (h : Plain i db) {t : Table ℕ Uuid Posting}
    {f : Option Posting → β × Option Posting} (hr : db.jobs.modify .tx i k f = some (b, t))
    (hf : ∀ p, (f (db.jobs.row i k)).2 = some p → p.marked = true →
      ∃ q, db.jobs.row i k = some q ∧ q.marked = true) : Plain i { db with jobs := t } := by
  have hcommitted := Table.committed_modify hr
  have hkept : ∀ l, Marked db l → Marked { db with jobs := t } l := by
    rintro l ⟨q, hq, hmarked⟩
    exact ⟨q, (hcommitted l).trans hq, hmarked⟩
  refine ⟨h.outbox, fun l v hlock => ?_⟩
  rcases Table.lock_modify hr hlock with hlock | ⟨rfl, r, hput, rfl⟩
  · obtain ⟨p, hv, hmarked⟩ := h.jobs l v hlock
    exact ⟨p, hv, fun hp => hkept l (hmarked hp)⟩
  · refine ⟨r, rfl, fun hrmarked => hkept l ?_⟩
    obtain ⟨q, hq, hqmarked⟩ := hf r hput hrmarked
    rcases Slot.visible_cases i (db.jobs.slot l) with hlock | hsame
    · obtain ⟨p, hv, hmarked⟩ := h.jobs l _ hlock
      obtain rfl : q = p := Option.some.inj (hq.symm.trans hv)
      exact hmarked hqmarked
    · exact ⟨q, hsame.symm.trans hq, hqmarked⟩

/-- The statements of a small request keep what it knows. -/
theorem keeps_modify_job {β : Type} {q : Query β} {f : Option Posting → β × Option Posting}
    (hrun : ∀ db, q.run i db =
      (db.jobs.modify .tx i k f).map fun p => (p.1, { db with jobs := p.2 }))
    (hf : ∀ db, Consistent site setting db → ∀ p, (f (db.jobs.row i k)).2 = some p →
      (p.id = k ∧ p.marks.length ≤ 1) ∧ Lasting (db.jobs.row i k) (some p) ∧
        (p.marked = true → ∃ q, db.jobs.row i k = some q ∧ q.marked = true)) :
    (contract env site setting).Keeps (plain env site setting i) q := by
  intro db b db' hinv h _ hr
  rw [show (alertSystem env site).run q i db = q.run i db from rfl, hrun] at hr
  obtain ⟨⟨b', t⟩, ht, he⟩ := Option.map_eq_some_iff.mp hr
  cases he
  obtain ⟨hinv', hg⟩ := Consistent.modify_job hinv ht fun p hp =>
    ⟨(hf db hinv p hp).1, (hf db hinv p hp).2.1⟩
  exact ⟨hinv', hg, h.modify_job ht fun p hp => (hf db hinv p hp).2.2⟩

theorem keeps_insert (job : NewJob) (now : Instant) :
    (contract env site setting).Keeps (plain env site setting i) (.insert k job now) := by
  refine keeps_modify_job (fun _ => rfl) fun db _ p hp => ?_
  obtain ⟨hrow, rfl⟩ := Table.inserting_cases hp
  rw [hrow]
  have hnew : (job.row k now).marked = false := rfl
  refine ⟨⟨rfl, Nat.zero_le 1⟩, ?_, ?_⟩
  · intro q hq
    cases hq
  · intro hmarked
    rw [hnew] at hmarked
    cases hmarked

/-- An update of a job that leaves its marks alone. -/
theorem keeps_updating {q : Query (Option Unit)} {f : Posting → Option (Unit × Posting)}
    (hrun : ∀ db, q.run i db =
      (db.jobs.modify .tx i k (Table.updating f)).map fun p => (p.1, { db with jobs := p.2 }))
    (hf : ∀ p u p', f p = some (u, p') →
      p'.id = p.id ∧ p'.marks = p.marks ∧ p'.alertsMatchedAt = p.alertsMatchedAt) :
    (contract env site setting).Keeps (plain env site setting i) q := by
  refine keeps_modify_job hrun fun db hinv p' hp' => ?_
  obtain ⟨p, u, hrow, hp⟩ := Table.updating_cases hp'
  obtain ⟨hid, hmarks, htime⟩ := hf p u p' hp
  obtain ⟨hk, hlen⟩ := hinv.jobs.row hrow
  rw [hrow]
  refine ⟨⟨hid.trans hk, by rw [hmarks]; exact hlen⟩, ?_, fun hmarked => ⟨p, rfl, ?_⟩⟩
  · rintro q he
    obtain rfl := Option.some.inj he
    exact ⟨p', rfl, fun _ => ⟨hmarks, htime⟩⟩
  · rw [Posting.marked, ← htime]
    exact hmarked

theorem keeps_close (poster : Uuid) (status : Ending) (now : Instant) :
    (contract env site setting).Keeps (plain env site setting i) (.close k poster status now) := by
  refine keeps_updating (fun _ => rfl) fun p u p' hp => ?_
  rw [Posting.close] at hp
  split at hp
  · cases hp
    exact ⟨rfl, rfl, rfl⟩
  · cases hp

theorem keeps_reopen (poster : Uuid) :
    (contract env site setting).Keeps (plain env site setting i) (.reopen k poster) := by
  refine keeps_updating (fun _ => rfl) fun p u p' hp => ?_
  rw [Posting.reopen] at hp
  split at hp
  · cases hp
    exact ⟨rfl, rfl, rfl⟩
  · cases hp

/-- A small request commits no mark, and no digest. -/
theorem Plain.commit (h : Plain i db) (hinv : Consistent site setting db) :
    Consistent site setting (db.commit i) ∧ Guaranteed env i db (db.commit i) ∧
      OneEach env db (db.commit i) := by
  have hmarks : Announces env i db (db.commit i) := by
    intro k hnot hmarked
    obtain ⟨p, hp, hpmarked⟩ := hmarked
    refine absurd ?_ hnot
    have hvisible : (db.jobs.slot k).visible i = some p := by
      rw [← Slot.commit_committed]
      exact hp
    rcases Slot.visible_cases i (db.jobs.slot k) with hlock | hsame
    · obtain ⟨q, hv, hmarked⟩ := h.jobs k _ hlock
      obtain rfl : p = q := Option.some.inj (hvisible.symm.trans hv)
      exact hmarked hpmarked
    · exact ⟨p, hsame.symm.trans hvisible, hpmarked⟩
  obtain ⟨hinv', hg⟩ := hinv.commit (fun g D hD => absurd hD (h.outbox g _)) hmarks
  refine ⟨hinv', hg, oneEach_of_committed fun g => ?_⟩
  show ((db.outbox.slot g).commit i).committed = _
  rw [Slot.commit_committed]
  rcases Slot.visible_cases i (db.outbox.slot g) with hlock | hsame
  · exact absurd hlock (h.outbox g _)
  · exact hsame

/-- **A small request keeps the contract**: a transaction whose queries keep what it knows. -/
theorem safe_transaction {γ : Type} {body : Alerting γ}
    (hbody : body.run.Each fun q =>
      (contract env site setting).Keeps (plain env site setting i) q ∧ q.publishes = false) :
    Safe (fun _ => (.any : Assertion (fullContract env site setting) i))
      (Action.transaction .commit .rollback body).run (plain env site setting i).adding := by
  refine Safe.transaction (fun _ => (plain env site setting i).adding)
    (safe_full (Safe.keep (hbody.mono fun _ hq => hq.1)) (hbody.mono fun _ hq => hq.2)) ?_ ?_
  · intro a db b db' hinv h _ hr
    cases hr
    obtain ⟨hinv', hg, heach⟩ := Plain.commit h hinv
    exact ⟨hinv', ⟨hg, heach⟩, trivial⟩
  · intro e db b db' hinv _ hC hr
    obtain ⟨hinv', hg⟩ := (fullContract env site setting).rollback hinv hC hr
    exact ⟨hinv', hg, trivial⟩

theorem safe_post (id : Uuid) (job : NewJob) :
    Safe (fun _ => (.any : Assertion (fullContract env site setting) i)) (post id job).run
      (plain env site setting i).adding := by
  refine safe_transaction ?_
  intro now
  refine ⟨⟨keeps_insert job now, rfl⟩, fun inserted => ?_⟩
  cases inserted <;> trivial

theorem safe_close (poster id : Uuid) (status : JobStatus) :
    Safe (fun _ => (.any : Assertion (fullContract env site setting) i))
      (close poster id status).run (plain env site setting i).adding := by
  rw [close]
  split
  · exact fun _ _ _ => trivial
  · refine safe_transaction ?_
    intro now
    refine Action.each_andThen (fun _ => trivial) fun owner => ?_
    split
    · refine ⟨⟨keeps_close poster _ now, rfl⟩, fun changed => ?_⟩
      cases changed <;> trivial
    · trivial

theorem safe_reopen (poster id : Uuid) :
    Safe (fun _ => (.any : Assertion (fullContract env site setting) i)) (reopen poster id).run
      (plain env site setting i).adding := by
  refine safe_transaction (Action.each_andThen (fun _ => trivial) fun owner => ?_)
  split
  · refine ⟨⟨keeps_reopen poster, rfl⟩, fun changed => ?_⟩
    cases changed <;> trivial
  · trivial

end Plain

end Marketplace.Alerts
