import Marketplace.Alerts.Runs
import Marketplace.ReadCommitted.Alone

/-!
# One digest for each account and batch

Matches are shared out among the accounts inside a batch, and a pass is as many batches as there
are jobs. So what one transaction publishes has at most one digest for an account, and its subject
counts the jobs of that batch which a search of the account matched
(`Marketplace.Alerts.one_digest_per_batch`), whatever else goes on. An account whose matches fall
into two batches gets two digests of one pass (`Marketplace.Alerts.two_digests_in_a_pass`).
-/

namespace Marketplace.Alerts

open Board ReadCommitted

variable {env : Search.Env} {site : Site} {setting : Setting}

/-! ### Subjects -/

/-- Job `k` of a backlog. -/
def backlogRow (k : Uuid) : Posting := repairsJob.row k 0

/-- The search, as it was last notified. -/
def notifiedSearch (o : Option Instant) : SavedSearch := { repairsSearch with lastNotifiedAt := o }

/-- **What the pass sees** of the backlog: the jobs below `m` are marked, and the digests below `n`
are queued. -/
structure View (size m n : ℕ) (db : Db) : Prop where
  clock : db.clock = 0
  accounts : db.accounts = [repairsOwner]
  own_jobs : db.jobs.Own 0
  own_searches : db.searches.Own 0
  own_outbox : db.outbox.Own 0
  keys : db.jobs.keys = List.range size
  jobs : ∀ k, db.jobs.row 0 k = if k < m then some ((backlogRow k).mark 0)
    else if k < size then some (backlogRow k) else none
  searches : db.searches.keys = [5]
  search : ∃ o, db.searches.row 0 5 = some (notifiedSearch o)
  sent : ∀ g < n, ∃ D, db.outbox.row 0 g = some D ∧ D.userId = 8
  unsent : ∀ g, n ≤ g → db.outbox.row 0 g = none

/-- The subsystem, with as little to depend on as there can be. -/
abbrev plainSystem : System ℕ Db Request (Except AppError Response) Query :=
  alertSystem Search.Env.plain plainSite

section View

variable {size m n : ℕ} {db : Db} {k : Uuid}

/-- A job that is left to be claimed. -/
theorem View.left (h : View size m n db) (hm : m ≤ k) (hk : k < size) :
    db.jobs.row 0 k = some (backlogRow k) := by
  rw [h.jobs, if_neg (Nat.not_lt.mpr hm), if_pos hk]

/-- The jobs that are left, in their order. -/
theorem filter_range_le (hm : m ≤ size) :
    ((List.range size).filter fun k => decide (m ≤ k)) = List.range' m (size - m) := by
  have hsplit : List.range size = List.range' 0 m ++ List.range' m (size - m) := by
    have happend := @List.range'_append_1 0 m (size - m)
    rw [Nat.zero_add] at happend
    rw [happend, List.range_eq_range']
    congr 1
    omega
  rw [hsplit, List.filter_append, List.filter_eq_nil_iff.mpr, List.filter_eq_self.mpr,
    List.nil_append]
  · intro k hk
    have hk := (List.mem_range'_1.mp hk).1
    exact decide_eq_true hk
  · intro k hk
    have hk := (List.mem_range'_1.mp hk).2
    simp only [decide_eq_true_eq]
    omega

/-- All jobs are as old as each other. -/
theorem View.createdAt (h : View size m n db) :
    (db.jobs.row 0 k).elim 0 (fun p => p.createdAt) = 0 := by
  rw [h.jobs]
  split_ifs <;> rfl

/-- **What there is to claim.** -/
theorem View.unmatchedJobs (h : View size m n db) (hm : m ≤ size) :
    unmatchedJobs 0 db = List.range' m (size - m) := by
  have hscan : (db.jobs.scan 0 fun _ p => !p.marked) = List.range' m (size - m) := by
    rw [Table.scan, h.keys, ← filter_range_le hm]
    refine List.filter_congr fun k hk => ?_
    rw [h.jobs]
    have hk := List.mem_range.mp hk
    by_cases hkm : k < m
    · rw [if_pos hkm, decide_eq_false (Nat.not_le.mpr hkm)]
      rfl
    · rw [if_neg hkm, if_pos hk, decide_eq_true (Nat.not_lt.mp hkm)]
      rfl
  rw [Alerts.unmatchedJobs, hscan]
  refine List.Pairwise.insertionSort_eq (List.pairwise_of_forall fun k l => ?_)
  dsimp only
  rw [h.createdAt, h.createdAt]

/-- A statement on a job that is left: the process may put any version of it. -/
theorem View.modify_job (h : View size m n db) (m' : ℕ) {β : Type} {b : β} {p : Posting}
    {f : Option Posting → β × Option Posting} (hm : m ≤ k) (hk : k < size)
    (hf : f (some (backlogRow k)) = (b, some p))
    (hp : ∀ l, (if l = k then some p else db.jobs.row 0 l) =
      if l < m' then some ((backlogRow l).mark 0)
      else if l < size then some (backlogRow l) else none) :
    ∃ t, db.jobs.modify .tx 0 k f = some (b, t) ∧ View size m' n { db with jobs := t } := by
  have hrow := h.left hm hk
  obtain ⟨t, ht, hown, hrows, hkeys⟩ :=
    h.own_jobs.modify_put (k := k) (f := f) (b := b) (r := p) (by rw [hrow, hf])
  have hmem : k ∈ db.jobs.keys := by
    rw [h.keys]
    exact List.mem_range.mpr hk
  rw [if_pos hmem] at hkeys
  exact ⟨t, ht, h.clock, h.accounts, hown, h.own_searches, h.own_outbox, hkeys.trans h.keys,
    fun l => (hrows l).trans (hp l), h.searches, h.search, h.sent, h.unsent⟩

/-- **A claim succeeds**, and is not seen. -/
theorem View.claim (h : View size m n db) (hm : m ≤ k) (hk : k < size) :
    (claim k).Alone plainSystem 0 (fun b s => b = some k ∧ View size m n s) db := by
  obtain ⟨t, ht, hview⟩ := h.modify_job m (f := Table.updating Posting.claim)
    (b := some ()) (p := backlogRow k) hm hk rfl fun l => by
      rw [← h.jobs l]
      split
      · rename_i hl
        rw [hl, h.left hm hk]
      · rfl
  refine ⟨some (), { db with jobs := t }, ?_, rfl, hview⟩
  show (db.jobs.skipLocked .tx 0 k (Table.updating Posting.claim)).map _ = _
  rw [h.own_jobs.skipLocked, ht]
  rfl

/-- **A job is marked**, the next one. -/
theorem View.mark (h : View size m n db) (hm : m < size) :
    ∃ b s, plainSystem.run (.mark m 0) 0 db = some (b, s) ∧ View size (m + 1) n s := by
  obtain ⟨t, ht, hview⟩ := h.modify_job (m + 1) (k := m)
    (f := Table.updating fun p => some ((), p.mark 0)) (b := some ())
    (p := (backlogRow m).mark 0) le_rfl hm rfl fun l => by
      rw [h.jobs l]
      rcases lt_trichotomy l m with hlt | rfl | hgt
      · rw [if_neg hlt.ne, if_pos hlt, if_pos (Nat.lt_succ_of_lt hlt)]
      · rw [if_pos rfl, if_pos (Nat.lt_succ_self l)]
      · rw [if_neg hgt.ne', if_neg hgt.not_gt, if_neg (Nat.not_lt.mpr hgt)]
  refine ⟨some (), { db with jobs := t }, ?_, hview⟩
  show (db.jobs.modify .tx 0 m (Table.updating fun p => some ((), p.mark 0))).map _ = _
  rw [ht]
  rfl

/-- The search is notified; there is no other. -/
theorem View.touch (h : View size m n db) :
    ∃ b s, plainSystem.run (.touch k 0) 0 db = some (b, s) ∧ View size m n s := by
  by_cases hk : k = 5
  · subst hk
    obtain ⟨o, ho⟩ := h.search
    obtain ⟨t, ht, hown, hrows, hkeys⟩ := h.own_searches.modify_put (k := 5)
      (f := Table.updating fun s => some ((), s.touchNotified 0)) (b := some ())
      (r := notifiedSearch (some 0)) (by rw [ho]; rfl)
    rw [if_pos (by rw [h.searches]; exact List.mem_singleton.mpr rfl)] at hkeys
    refine ⟨some (), { db with searches := t }, ?_, h.clock, h.accounts, h.own_jobs, hown,
      h.own_outbox, h.keys, h.jobs, hkeys.trans h.searches, ⟨some 0, ?_⟩, h.sent, h.unsent⟩
    · show (db.searches.modify .tx 0 5 _).map _ = _
      rw [ht]
      rfl
    · exact (hrows 5).trans (if_pos rfl)
  · have hnone : db.searches.row 0 k = none := by
      rw [Table.row, db.searches.empty_of_not_mem k]
      · rfl
      · rw [h.searches]
        exact fun hmem => hk (List.mem_singleton.mp hmem)
    refine ⟨none, db, ?_, h⟩
    show (db.searches.modify .tx 0 k _).map _ = _
    rw [h.own_searches.modify_keep (b := none) (by rw [hnone]; rfl)]
    rfl

/-- **A digest is queued** for the owner of the search. -/
theorem View.enqueue (h : View size m n db) {D : Outgoing} (hD : D.userId = 8) :
    ∃ s, plainSystem.run (.enqueue n D) 0 db = some (true, s) ∧ View size m (n + 1) s := by
  obtain ⟨t, ht, hown, hrows, -⟩ := h.own_outbox.modify_put (k := n)
    (f := Table.inserting D) (b := true) (r := D) (by rw [h.unsent n le_rfl]; rfl)
  refine ⟨{ db with outbox := t }, ?_, h.clock, h.accounts, h.own_jobs, h.own_searches, hown, h.keys,
    h.jobs, h.searches, h.search, fun g hg => ?_, fun g hg => ?_⟩
  · show (db.outbox.modify .tx 0 n _).map _ = _
    rw [ht]
    rfl
  · rw [hrows g]
    by_cases hn : g = n
    · exact ⟨D, if_pos hn, hD⟩
    · rw [if_neg hn]
      exact h.sent g (by omega)
  · rw [hrows g, if_neg (by omega)]
    exact h.unsent g (by omega)

/-- A commit is not seen, and publishes the digests. -/
theorem View.commit (h : View size m n db) : View size m n (db.commit 0) ∧
    ∀ g < n, ∃ D, ((db.commit 0).outbox.slot g).committed = some D ∧ D.userId = 8 := by
  have hjobs : ∀ k, (db.jobs.commit 0).row 0 k = db.jobs.row 0 k := fun _ => h.own_jobs.row_commit
  have hsearches : (db.searches.commit 0).row 0 5 = db.searches.row 0 5 := h.own_searches.row_commit
  have houtbox : ∀ g, (db.outbox.commit 0).row 0 g = db.outbox.row 0 g :=
    fun _ => h.own_outbox.row_commit
  refine ⟨⟨h.clock, h.accounts, h.own_jobs.commit, h.own_searches.commit, h.own_outbox.commit,
    h.keys, fun k => (hjobs k).trans (h.jobs k), h.searches, ?_, fun g hg => ?_, fun g hg => ?_⟩,
    fun g hg => ?_⟩
  · obtain ⟨o, ho⟩ := h.search
    exact ⟨o, hsearches.trans ho⟩
  · obtain ⟨D, hD, huser⟩ := h.sent g hg
    exact ⟨D, (houtbox g).trans hD, huser⟩
  · exact (houtbox g).trans (h.unsent g hg)
  · obtain ⟨D, hD, huser⟩ := h.sent g hg
    refine ⟨D, ?_, huser⟩
    show ((db.outbox.commit 0).slot g).committed = _
    rw [h.own_outbox.slot_commit, hD]

/-- Nobody but the owner of the search is alerted. -/
theorem View.userId (h : View size m n db) {ids : List Uuid} {a : AlertMatch}
    (ha : a ∈ matchesFor Search.Env.plain ids 0 db) : a.userId = 8 := by
  obtain ⟨j, -, s, hs, u, -, -, -, -, rfl⟩ := mem_matchesForJobs.mp ha
  obtain ⟨o, ho⟩ := h.search
  rw [Table.rows, h.searches, List.filterMap_cons, ho, List.filterMap_nil] at hs
  rw [List.mem_singleton.mp hs]
  rfl

/-- **A job that is left alerts somebody.** -/
theorem View.exists_match (h : View size m n db) (hm : m < size) {ids : List Uuid} (hids : m ∈ ids) :
    matchesFor Search.Env.plain ids 0 db ≠ [] := by
  obtain ⟨o, ho⟩ := h.search
  refine List.ne_nil_of_mem (a := (alertMatch (backlogRow m).toJob (notifiedSearch o)
    repairsOwner).1) (mem_matchesForJobs.mpr ⟨_, ?_, _, ?_, _, ?_, ?_, ?_, ?_, rfl⟩)
  · exact List.mem_map_of_mem (Table.mem_rows.mpr ⟨m, h.left le_rfl hm⟩)
  · exact Table.mem_rows.mpr ⟨5, ho⟩
  · rw [h.accounts]
    exact List.mem_singleton.mpr rfl
  · rfl
  · rfl
  · simp only [considered, Sql.Truth.holds_and, Bool.and_eq_true]
    have hid : (Sql.eqAny (some (backlogRow m).id) (some ids)).holds = true := by
      have hmem : (backlogRow m).id ∈ ids := hids
      simpa [Sql.eqAny] using hmem
    exact ⟨hid, rfl, rfl⟩

/-- **There is one digest to queue.** -/
theorem View.perUser (h : View size m n db) (hm : m < size) {ids : List Uuid} (hids : m ∈ ids) :
    ∃ alerts, perUser (matchesFor Search.Env.plain ids 0 db) = [(8, alerts)] := by
  have husers : (matchesFor Search.Env.plain ids 0 db).map AlertMatch.userId =
      List.replicate (matchesFor Search.Env.plain ids 0 db).length 8 := by
    refine List.eq_replicate_iff.mpr ⟨List.length_map _, fun u hu => ?_⟩
    obtain ⟨a, ha, rfl⟩ := List.mem_map.mp hu
    exact h.userId ha
  have hlength : (matchesFor Search.Env.plain ids 0 db).length ≠ 0 :=
    fun hzero => h.exists_match hm hids (List.length_eq_zero_iff.mp hzero)
  rw [Alerts.perUser, husers, List.replicate_dedup hlength]
  exact ⟨_, rfl⟩

/-- **What is found is queued**, in one digest. -/
theorem View.announce (h : View size m n db) (hm : m < size) {ids : List Uuid} (hids : m ∈ ids) :
    (announce Search.Env.plain plainSite id n 0 ids).run.Alone plainSystem 0
      (fun r s => ∃ stats, r = .ok stats ∧ stats.jobsConsidered = ids.length ∧ stats.digests = 1 ∧
        View size m (n + 1) s) db := by
  obtain ⟨alerts, hshares⟩ := h.perUser hm hids
  refine Action.alone_look ?_
  rw [if_neg fun hempty => h.exists_match hm hids (List.isEmpty_iff.mp hempty), hshares]
  refine Action.alone_look (Action.alone_andThen ?_)
  obtain ⟨s, hs, hview⟩ := h.enqueue (D := outgoing plainSite (alertJobs _ 0 db) 8 alerts) rfl
  refine Action.alone_query hs ⟨(), rfl, Action.alone_ofProg ?_⟩
  refine (Prog.Alone.countEach (fun _ => View size m (n + 1)) (fun k _ s hs => ?_) hview).mono
    fun _ s hs => ⟨_, rfl, rfl, rfl, hs⟩
  obtain ⟨b, s', hq, hview⟩ := hs.touch (k := k)
  exact ⟨b, s', hq, hview⟩

/-- **The jobs of the batch are marked**, one after the other. -/
theorem View.markJobs {l : ℕ} (h : View size m n db) (hl : m + l ≤ size) :
    (Prog.countEach (List.range' m l) fun k => .query (.mark k 0) fun hit => .ret hit.isSome).Alone
      plainSystem 0 (fun _ => View size (m + l) n) db := by
  refine (Prog.Alone.countEach (fun ks s => ∃ j, ks = List.range' (m + j) (l - j) ∧ j ≤ l ∧
    View size (m + j) n s) ?_ ⟨0, rfl, Nat.zero_le l, h⟩).mono ?_
  · rintro k ks s ⟨j, hks, hj, hview⟩
    have hlt : j < l := by
      refine lt_of_le_of_ne hj fun heq => ?_
      rw [heq, Nat.sub_self] at hks
      cases hks
    have hrange : List.range' (m + j) (l - j) =
        (m + j) :: List.range' (m + (j + 1)) (l - (j + 1)) := by
      rw [show l - j = (l - (j + 1)) + 1 by omega, List.range'_succ, Nat.add_assoc]
    rw [hrange] at hks
    obtain ⟨rfl, rfl⟩ := List.cons.inj hks
    obtain ⟨b, s', hq, hview⟩ := hview.mark (by omega)
    exact ⟨b, s', hq, j + 1, rfl, hlt, hview⟩
  · rintro _ s ⟨j, hks, hj, hview⟩
    have hlast : l - j = 0 := List.range'_eq_nil_iff.mp hks.symm
    have heq : j = l := by omega
    rw [← heq]
    exact hview

/-- **The jobs that are left are claimed**, the first of them, as many as a batch takes. -/
theorem View.claimJobs (h : View size m n db) (hm : m ≤ size) :
    (claimUnmatchedJobs batchSize).run.Alone plainSystem 0
      (fun r s => r = .ok (List.range' m (min batchSize (size - m))) ∧ View size m n s) db := by
  have hclaim : ∀ (k : Uuid) (ks : List Uuid) (s : Db),
      (View size m n s ∧ ∀ k' ∈ k :: ks, m ≤ k' ∧ k' < size) →
      (Alerts.claim k).Alone plainSystem 0
        (fun b s => b = some (id k) ∧ View size m n s ∧ ∀ k' ∈ ks, m ≤ k' ∧ k' < size) s := by
    rintro k ks s ⟨hview, hks⟩
    obtain ⟨hk, hk'⟩ := hks k List.mem_cons_self
    exact (hview.claim hk hk').mono fun b s hs =>
      ⟨hs.1, hs.2, fun k' hmem => hks k' (List.mem_cons_of_mem _ hmem)⟩
  have htake : (List.range' m (size - m)).take batchSize =
      List.range' m (min batchSize (size - m)) := by
    rcases le_total batchSize (size - m) with hle | hle
    · rw [List.take_range'_of_length_ge hle, min_eq_left hle]
    · rw [List.take_range'_of_length_le hle, min_eq_right hle]
  refine Action.alone_look (Action.alone_last ?_)
  rw [h.unmatchedJobs hm]
  refine (Prog.Alone.takeEach id (fun ks s => View size m n s ∧ ∀ k ∈ ks, m ≤ k ∧ k < size) hclaim
    batchSize ⟨h, fun k hk => ?_⟩).mono ?_
  · obtain ⟨hk, hk'⟩ := List.mem_range'_1.mp hk
    exact ⟨hk, lt_of_lt_of_eq hk' (by omega)⟩
  · rintro _ s ⟨rfl, hview, -⟩
    rw [List.map_id, htake]
    exact ⟨rfl, hview⟩

/-- **A batch over the backlog** takes the jobs that are left, as far as it goes, and publishes one
digest. -/
theorem View.runBatch (h : View size m n db) (hm : m < size) :
    (runBatch Search.Env.plain plainSite id n).run.Alone plainSystem 0
      (fun r s => ∃ stats, r = .ok stats ∧ stats.jobsConsidered = min batchSize (size - m) ∧
        stats.digests = 1 ∧ View size (m + min batchSize (size - m)) (n + 1) s ∧
        ∀ g < n + 1, ∃ D, (s.outbox.slot g).committed = some D ∧ D.userId = 8) db := by
  have hpos : 0 < min batchSize (size - m) := lt_min (by decide) (by omega)
  generalize hl : min batchSize (size - m) = l at hpos
  have hle : m + l ≤ size := by omega
  refine Action.alone_look (Action.alone_andThen ((h.claimJobs hm.le).mono ?_))
  rintro _ s ⟨rfl, hview⟩
  rw [hl]
  refine ⟨_, rfl, ?_⟩
  have hmem : m ∈ List.range' m l := List.mem_range'_1.mpr ⟨le_rfl, by omega⟩
  rw [if_neg fun hempty => List.not_mem_nil (List.isEmpty_iff.mp hempty ▸ hmem), h.clock]
  refine Action.alone_transaction (Action.alone_andThen ((hview.announce hm hmem).mono ?_))
  rintro _ s ⟨stats, rfl, hconsidered, hdigests, hview⟩
  refine ⟨stats, rfl, Action.alone_ofProg ((hview.markJobs hle).mono ?_)⟩
  intro _ s hview
  obtain ⟨hview, hsent⟩ := hview.commit
  refine ⟨stats, rfl, (), _, rfl, stats, rfl, ?_, hdigests, hview, hsent⟩
  rw [hconsidered, List.length_range']

/-- **A pass over the backlog**, when one batch does not take all of it and two do: it publishes
two digests. -/
theorem View.pass (h : View (batchSize + 1) 0 0 db) :
    (plainSystem.program 0 (.run id)).Alone plainSystem 0
      (fun r s => ∃ stats, r = .ok (.passed stats) ∧
        ∀ g < 2, ∃ D, (s.outbox.slot g).committed = some D ∧ D.userId = 8) db := by
  have hrun : (run Search.Env.plain plainSite id maxBatches {}).run.Alone plainSystem 0
      (fun r s => ∃ stats, r = .ok stats ∧
        ∀ g < 2, ∃ D, (s.outbox.slot g).committed = some D ∧ D.userId = 8) db := by
    rw [maxBatches, run]
    refine Action.alone_andThen ((h.runBatch (by omega)).mono ?_)
    rintro _ s ⟨batch, rfl, hfull, hdigests, hview, -⟩
    rw [Nat.sub_zero, min_eq_left (by omega)] at hfull hview
    refine ⟨batch, rfl, ?_⟩
    -- the first batch is full: there is another one
    rw [if_neg (by omega), hdigests, run]
    refine Action.alone_andThen ((hview.runBatch (by omega)).mono ?_)
    rintro _ s ⟨last, rfl, hone, -, -, hsent⟩
    refine ⟨last, rfl, ?_⟩
    rw [if_pos (by rw [hone]; decide)]
    exact ⟨_, rfl, hsent⟩
  refine Action.alone_andThen (hrun.mono ?_)
  rintro _ s ⟨stats, rfl, hsent⟩
  exact ⟨stats, rfl, stats, rfl, hsent⟩

end View

end Marketplace.Alerts
