import Mathlib.Algebra.BigOperators.Group.Finset.Basic
import Mathlib.Data.Finset.Range
import Marketplace.Enrichment.ReviewIds

/-!
# Batches that fail

A batch is written in one transaction (`Marketplace.Enrichment.work`), any statement of which may
fail. Then nothing of it stays in the store, but what it has counted stays counted, and since nothing
says that its contractors were asked about, they are selected, and paid for, again.

Where no write fails, and no review that is written is there already, the totals are those of what
was written, no contractor is asked about twice, and the loop ends
(`Marketplace.Enrichment.failSafe_of_smooth`).
-/

namespace Marketplace.Enrichment

/-! ### Totals -/

/-- What is counted. -/
inductive Counter
  | attempted
  | confirmed
  | needsReview
  | rejected
  | noResult
  | placesWritten
  | reviewsWritten
  | batchesOk
  | batchesFailed
  | unqueried
  deriving DecidableEq

/-- **`Totals`**. -/
structure Totals where
  count : Counter → ℕ := fun _ => 0
  consecutiveStartFailures : ℕ := 0
  spend : ℚ := 0

/-- So many more are counted. -/
def Totals.bump (t : Totals) (c : Counter) (n : ℕ) : Totals :=
  { t with count := fun d => if d = c then t.count d + n else t.count d }

/-! ### Writing -/

/-- What is done in the transaction of a batch. -/
inductive Work
  /-- So many are counted. -/
  | count (c : Counter) (n : ℕ)
  /-- A statement is executed, or the commit. -/
  | execute
  deriving DecidableEq

namespace Work

/-- How much is counted by some work. -/
def amount (c : Counter) : Work → ℕ
  | count d n => if d = c then n else 0
  | execute => 0

/-- How much is counted by all of some work. -/
def total (c : Counter) (work : List Work) : ℕ := (work.map (amount c)).sum

/-- The work of a batch is done up to a statement that fails. -/
def performed : Option ℕ → List Work → List Work
  | _, [] => []
  | failsAt, count c n :: work => count c n :: performed failsAt work
  | none, execute :: work => execute :: performed none work
  | some 0, execute :: _ => []
  | some (k + 1), execute :: work => execute :: performed (some k) work

/-- No statement fails. -/
def commits (failsAt : Option ℕ) (work : List Work) : Bool :=
  failsAt.all fun k => decide (work.count execute ≤ k)

end Work

section Write

variable (batch : List Contractor) (scrape : Scrape)

/-- The counter of a match that is not rejected. -/
def Candidate.counter (x : Candidate) : Counter :=
  if x.result.status = .confirmed then .confirmed else .needsReview

/-- An attempt is recorded. -/
def recordWork (x : Candidate) : List Work :=
  [.count .attempted 1, .execute] ++ if x.accepted = true then [] else [.count .rejected 1]

/-- A match is written, with the reviews of its place. -/
def matchWork (x : Candidate) : List Work :=
  .execute :: List.replicate (splitReviews scrape.rows x.placeId).length .execute ++
    [.count x.counter 1]

/-- **What `write_batch` does**, in its order: the attempts of the pairs, the places, the matches
with their reviews, the contractors that nothing was found for, the row of the run, and the
commit. -/
def work : List Work :=
  (pairing batch scrape).flatMap recordWork ++
    List.replicate (acceptedPairs batch scrape).length .execute ++
    (acceptedPairs batch scrape).flatMap (matchWork scrape) ++
    (if scrape.succeeded = true then
      (unmatched batch scrape).flatMap fun _ =>
        [.count .attempted 1, .count .noResult 1, .execute]
    else [.count .unqueried (unmatched batch scrape).length]) ++
    [.execute, .execute]

/-- What has been counted. -/
def Totals.countAll (t : Totals) (work : List Work) : Totals :=
  { t with count := fun c => t.count c + Work.total c work }

/-- **`write_batch`**, when a statement may fail: it is rolled back, and only what it has counted
stays. -/
def writeBatchFailing (failsAt : Option ℕ) (store : Store) (totals : Totals) : Store × Totals :=
  let totals := totals.countAll (Work.performed failsAt (work batch scrape))
  if Work.commits failsAt (work batch scrape) = true then
    ({ store with staging := writeBatch batch scrape store.clock store.staging },
      ((totals.bump .placesWritten (writtenPlaces batch scrape store.clock).length).bump
        .reviewsWritten (insertReviews store.staging.reviews (writtenReviews batch scrape)).2).bump
          .batchesOk 1)
  else (store, totals.bump .batchesFailed 1)

end Write

/-! ### The loop -/

/-- `BATCH_SIZE`. -/
def batchSize : ℕ := 20

/-- `SLEEP_BETWEEN_BATCHES`. -/
def sleepBetweenBatches : ℕ := 5

/-- `MAX_CONSECUTIVE_START_FAILURES`. -/
def maxConsecutiveStartFailures : ℕ := 3

/-- The arguments, and what was spent before. -/
structure Args where
  retryAfterDays : ℕ
  shard : Option (Text → Bool) := none
  maxSpend : ℚ
  alreadySpent : ℚ := 0

/-- Where the loop is: how many contractors remain, if there is a limit. -/
structure LoopState where
  store : Store
  totals : Totals := {}
  remaining : Option ℕ

/-- What comes of a batch, after some time. -/
inductive Attempted
  /-- The run could not be started. -/
  | notStarted (takes : ℕ)
  /-- The run has cost something, and a statement of the batch may fail. -/
  | ran (scrape : Scrape) (cost : ℚ) (takes : ℕ) (failsAt : Option ℕ)

/-- **`process_batch`**. -/
def processBatch (batch : List Contractor) (store : Store) (totals : Totals) :
    Attempted → Store × Totals
  | .notStarted takes =>
    ({ store with clock := store.clock + takes },
      { totals.bump .batchesFailed 1 with
        consecutiveStartFailures := totals.consecutiveStartFailures + 1 })
  | .ran scrape cost takes failsAt =>
    writeBatchFailing batch scrape failsAt { store with clock := store.clock + takes }
      { totals with consecutiveStartFailures := 0, spend := totals.spend + cost }

namespace LoopState

variable (args : Args) (s : LoopState)

/-- The next batch. -/
def batch : List Contractor :=
  loadBatch s.store
    { retryAfterDays := args.retryAfterDays
      limit := s.remaining.elim batchSize (min batchSize)
      shard := args.shard }

/-- Whether there is a next batch. -/
def goesOn : Bool :=
  s.remaining ≠ some 0 && args.alreadySpent + s.totals.spend < args.maxSpend &&
    !(s.batch args).isEmpty && s.totals.consecutiveStartFailures < maxConsecutiveStartFailures

/-- **The main loop**, one batch on. -/
def next (o : Attempted) : LoopState :=
  if s.goesOn args = true then
    let processed := processBatch (s.batch args) s.store s.totals o
    { store := { processed.1 with clock := processed.1.clock + sleepBetweenBatches }
      totals := processed.2
      remaining := s.remaining.map fun n => n - (s.batch args).length }
  else s

end LoopState

/-- The state after some batches. -/
def stateAfter (args : Args) (env : ℕ → Attempted) (s₀ : LoopState) : ℕ → LoopState
  | 0 => s₀
  | n + 1 => (stateAfter args env s₀ n).next args (env n)

/-! ### What is counted -/

namespace Work

variable {c : Counter} {work work' : List Work} {failsAt : Option ℕ}

@[simp] theorem total_nil : total c [] = 0 := rfl

@[simp] theorem total_cons {w : Work} : total c (w :: work) = w.amount c + total c work := rfl

@[simp] theorem total_append : total c (work ++ work') = total c work + total c work' := by
  rw [total, total, total, List.map_append, List.sum_append]

@[simp] theorem total_replicate {n : ℕ} : total c (List.replicate n execute) = 0 := by
  simp [total, amount]

theorem total_flatMap {α : Type} {f : α → List Work} {xs : List α} :
    total c (xs.flatMap f) = (xs.map fun x => total c (f x)).sum := by
  induction xs with
  | nil => rfl
  | cons x xs ih => rw [List.flatMap_cons, total_append, ih, List.map_cons, List.sum_cons]

/-- What each counts that is of a kind. -/
theorem total_flatMap_of_ite {α : Type} {f : α → List Work} {p : α → Bool} {xs : List α}
    (h : ∀ x ∈ xs, total c (f x) = if p x = true then 1 else 0) :
    total c (xs.flatMap f) = xs.countP p := by
  induction xs with
  | nil => rfl
  | cons x xs ih =>
    rw [List.flatMap_cons, total_append, h x List.mem_cons_self,
      ih fun y hy => h y (List.mem_cons_of_mem x hy), List.countP_cons, Nat.add_comm]

/-- **What is done is a start of the work.** -/
theorem performed_prefix (failsAt : Option ℕ) (work : List Work) :
    ∃ rest, work = performed failsAt work ++ rest := by
  induction work generalizing failsAt with
  | nil => exact ⟨[], by cases failsAt <;> rfl⟩
  | cons w work ih =>
    cases w with
    | count c n =>
      obtain ⟨rest, h⟩ := ih failsAt
      exact ⟨rest, by cases failsAt <;> simpa [performed] using h⟩
    | execute =>
      rcases failsAt with _ | _ | k
      · obtain ⟨rest, h⟩ := ih none
        exact ⟨rest, by simpa [performed] using h⟩
      · exact ⟨execute :: work, rfl⟩
      · obtain ⟨rest, h⟩ := ih (some k)
        exact ⟨rest, by simpa [performed] using h⟩

theorem total_performed_le : total c (performed failsAt work) ≤ total c work := by
  obtain ⟨rest, h⟩ := performed_prefix failsAt work
  have htotal := congrArg (total c) h
  rw [total_append] at htotal
  omega

/-- Where no statement fails, all is done. -/
theorem performed_of_commits (h : commits failsAt work = true) : performed failsAt work = work := by
  induction work generalizing failsAt with
  | nil => cases failsAt <;> rfl
  | cons w work ih =>
    cases w with
    | count c n =>
      have hrest : commits failsAt work = true := by
        rwa [commits, List.count_cons_of_ne (by simp)] at h
      cases failsAt <;> exact congrArg _ (ih hrest)
    | execute =>
      rcases failsAt with _ | _ | k
      · exact congrArg _ (ih rfl)
      · simp [commits] at h
      · refine congrArg _ (ih ?_)
        simpa [commits] using h

end Work

section Counted

variable {batch : List Contractor} {scrape : Scrape} {store : Store} {c : Counter}

/-- The totals of what the transaction of a batch writes. -/
def writtenBy (batch : List Contractor) (scrape : Scrape) (store : Store) : Counter → ℕ
  | .attempted => (recorded batch scrape store.clock).length
  | .confirmed =>
    (writtenMatches batch scrape store.clock).countP fun m => m.matchStatus = .confirmed
  | .needsReview =>
    (writtenMatches batch scrape store.clock).countP fun m => m.matchStatus = .needsReview
  | .rejected => (recorded batch scrape store.clock).countP fun a => a.outcome = .scored .rejected
  | .noResult => (recorded batch scrape store.clock).countP fun a => a.outcome = .noResult
  | .placesWritten => (writtenPlaces batch scrape store.clock).length
  | .reviewsWritten => (writeBatch batch scrape store.clock store.staging).reviews.length -
      store.staging.reviews.length
  | .batchesOk | .batchesFailed | .unqueried => 0

/-- The totals that are of what is written. -/
def Counter.isReported (c : Counter) : Bool := c ∉ [.batchesOk, .batchesFailed, .unqueried]

/-- No review that a batch writes is there already, and none is written twice. -/
def FreshReviews (batch : List Contractor) (scrape : Scrape) (s : Staging) : Prop :=
  (∀ v ∈ writtenReviews batch scrape, v.reviewId ∉ s.reviews.map GmapsReview.reviewId) ∧
    ((writtenReviews batch scrape).map GmapsReview.reviewId).Nodup

/-- Nothing is found for anybody, if nothing is paired. -/
theorem unmatched_of_unpaired (h : pairing batch scrape = []) : unmatched batch scrape = batch := by
  rw [unmatched, h]
  simp

/-- A match is counted as confirmed, or as left for review. -/
theorem countP_counter_eq_zero (hconfirmed : c ≠ .confirmed) (hreview : c ≠ .needsReview)
    (xs : List Candidate) : xs.countP (fun x => x.counter = c) = 0 := by
  refine List.countP_eq_zero.mpr fun x _ => ?_
  rw [Candidate.counter, decide_eq_true_iff]
  split
  · exact hconfirmed.symm
  · exact hreview.symm

theorem total_recordWork {x : Candidate} : Work.total c (recordWork x) =
    (if c = .attempted then 1 else 0) +
      if c = .rejected ∧ x.result.status = .rejected then 1 else 0 := by
  rw [recordWork, Candidate.accepted]
  cases hstatus : x.result.status <;> cases c <;> simp [Work.amount]

theorem total_matchWork {x : Candidate} :
    Work.total c (matchWork scrape x) = if x.counter = c then 1 else 0 := by
  simp [matchWork, Work.amount]

/-- What is counted in the transaction. -/
theorem total_work : Work.total c (work batch scrape) =
    ((pairing batch scrape).map fun x => Work.total c (recordWork x)).sum +
      (acceptedPairs batch scrape).countP (fun x => x.counter = c) +
        if scrape.succeeded = true then
          (unmatched batch scrape).length * (Work.total c [.count .attempted 1, .count .noResult 1])
        else if c = .unqueried then (unmatched batch scrape).length else 0 := by
  have hmatches : Work.total c ((acceptedPairs batch scrape).flatMap (matchWork scrape)) =
      (acceptedPairs batch scrape).countP fun x => x.counter = c :=
    Work.total_flatMap_of_ite fun x _ => by rw [total_matchWork]; simp
  rw [work, Work.total_append, Work.total_append, Work.total_append, Work.total_append,
    Work.total_replicate, Work.total_flatMap, hmatches]
  split
  · rw [Work.total_flatMap]
    simp [Work.amount]
  · cases c <;> simp [Work.amount]

/-- **A transaction counts what it writes**, but for the places and the reviews, which are counted
after it. -/
theorem total_work_eq (hc : c.isReported = true) (hplaces : c ≠ .placesWritten)
    (hreviews : c ≠ .reviewsWritten) :
    Work.total c (work batch scrape) = writtenBy batch scrape store c := by
  rw [total_work]
  cases c with
  | attempted =>
    rw [countP_counter_eq_zero (by simp) (by simp), writtenBy, recorded]
    split <;> simp [total_recordWork, Work.amount]
  | confirmed =>
    rw [writtenBy, writtenMatches, List.countP_map]
    have hcounter : ∀ x : Candidate, x.counter = .confirmed ↔ x.result.status = .confirmed := by
      intro x
      rw [Candidate.counter]
      split <;> simp [*]
    split <;> simp [total_recordWork, Work.amount, hcounter, Candidate.toMatch, Function.comp_def]
  | needsReview =>
    rw [writtenBy, writtenMatches, List.countP_map]
    have hcounter : (acceptedPairs batch scrape).countP (fun x => x.counter = .needsReview) =
        (acceptedPairs batch scrape).countP fun x => x.result.status = .needsReview := by
      refine List.countP_congr fun x hx => ?_
      have haccepted : x.result.status ≠ .rejected := of_decide_eq_true (List.mem_filter.mp hx).2
      rw [Candidate.counter]
      cases hstatus : x.result.status <;> simp_all
    rw [hcounter]
    split <;> simp [total_recordWork, Work.amount, Candidate.toMatch, Function.comp_def]
  | rejected =>
    have hrejected : ((pairing batch scrape).map fun x => Work.total .rejected (recordWork x)).sum =
        (pairing batch scrape).countP fun x => x.result.status = .rejected := by
      rw [← Work.total_flatMap]
      exact Work.total_flatMap_of_ite fun x _ => by simp [total_recordWork]
    rw [countP_counter_eq_zero (by simp) (by simp), hrejected, writtenBy, recorded]
    split <;> simp [Work.amount, List.countP_append, List.countP_map, Function.comp_def,
      Candidate.toAttempt, Contractor.toAttempt]
  | noResult =>
    rw [countP_counter_eq_zero (by simp) (by simp), writtenBy, recorded]
    split <;> simp [total_recordWork, Work.amount, List.countP_append, List.countP_map,
      Function.comp_def, Candidate.toAttempt, Contractor.toAttempt]
  | placesWritten => exact absurd rfl hplaces
  | reviewsWritten => exact absurd rfl hreviews
  | batchesOk | batchesFailed | unqueried => cases hc

/-- All reviews that are given are new ones only if they are fresh. -/
theorem length_reviews_eq_iff {now : Instant} {s : Staging} :
    (writtenReviews batch scrape).length =
        (writeBatch batch scrape now s).reviews.length - s.reviews.length ↔
      FreshReviews batch scrape s := by
  have hkeep : ∀ old r : GmapsReview, old.reviewId = r.reviewId →
      (Sql.keep old r).reviewId = r.reviewId := fun _ _ => id
  have hle := @Sql.length_le_upsertAll _ _ _ GmapsReview.reviewId Sql.keep s.reviews
    (writtenReviews batch scrape)
  have hiff := @Sql.length_upsertAll_eq_iff _ _ _ GmapsReview.reviewId Sql.keep s.reviews
    (writtenReviews batch scrape) hkeep
  rw [FreshReviews, ← hiff]
  show _ = (Sql.upsertAll _ _ _ _).length - _ ↔ _
  omega

/-- Nothing that is reported is counted before the first statement, if nothing is paired, and the run
has not succeeded. -/
theorem total_work_of_unpaired (hpairing : pairing batch scrape = [])
    (hsucceeded : scrape.succeeded = false) (hc : c.isReported = true) :
    Work.total c (work batch scrape) = 0 := by
  rw [total_work, acceptedPairs, hpairing, hsucceeded]
  cases c with
  | unqueried => cases hc
  | _ => simp

/-- What is counted first, if anything is paired, or the run has succeeded. -/
theorem exists_work_eq (hbatch : batch ≠ [])
    (hpaired : ¬ (pairing batch scrape = [] ∧ scrape.succeeded = false)) :
    ∃ rest, work batch scrape = .count .attempted 1 :: rest := by
  rw [work]
  rcases hpairing : pairing batch scrape with _ | ⟨x, xs⟩
  · have hsucceeded : scrape.succeeded = true := by
      rw [← Bool.not_eq_false]
      exact fun h => hpaired ⟨hpairing, h⟩
    obtain ⟨d, ds, rfl⟩ := List.exists_cons_of_ne_nil hbatch
    rw [acceptedPairs, hpairing, hsucceeded, unmatched_of_unpaired hpairing]
    exact ⟨_, rfl⟩
  · exact ⟨_, rfl⟩

/-- **The totals are those of what is written** if and only if the transaction commits, and all its
reviews are fresh, or else fails before it has counted anything. -/
theorem counts_iff {failsAt : Option ℕ} {totals : Totals} (hbatch : batch ≠ []) :
    (∀ c, c.isReported = true →
      (writeBatchFailing batch scrape failsAt store totals).2.count c = totals.count c +
        if Work.commits failsAt (work batch scrape) = true then writtenBy batch scrape store c
        else 0) ↔
      if Work.commits failsAt (work batch scrape) = true then
        FreshReviews batch scrape store.staging
      else pairing batch scrape = [] ∧ scrape.succeeded = false := by
  by_cases hcommits : Work.commits failsAt (work batch scrape) = true
  · rw [if_pos hcommits, ← @length_reviews_eq_iff batch scrape store.clock]
    simp only [if_pos hcommits, writeBatchFailing, Work.performed_of_commits hcommits]
    constructor
    · intro h
      have hreviews := h .reviewsWritten rfl
      have hnone : Work.total .reviewsWritten (work batch scrape) = 0 := by
        rw [total_work, countP_counter_eq_zero (by simp) (by simp)]
        simp [total_recordWork, Work.amount]
      simpa [Totals.bump, Totals.countAll, insertReviews, hnone, writtenBy] using hreviews
    · intro hreviews c hc
      have hnone : ∀ d, d = .placesWritten ∨ d = .reviewsWritten →
          Work.total d (work batch scrape) = 0 := by
        rintro d (rfl | rfl) <;> rw [total_work, countP_counter_eq_zero (by simp) (by simp)] <;>
          simp [total_recordWork, Work.amount]
      by_cases hplaces : c = .placesWritten
      · subst hplaces
        simp [Totals.bump, Totals.countAll, hnone, writtenBy]
      by_cases hwritten : c = .reviewsWritten
      · subst hwritten
        simp [Totals.bump, Totals.countAll, hnone, insertReviews, hreviews, writtenBy]
      · have hother : c ≠ .batchesOk := by
          rintro rfl
          cases hc
        have hwork := @total_work_eq batch scrape store c hc hplaces hwritten
        simp [Totals.bump, Totals.countAll, hplaces, hwritten, hother, hwork]
  · rw [if_neg hcommits]
    simp only [if_neg hcommits, writeBatchFailing]
    constructor
    · intro h
      by_contra hpaired
      obtain ⟨rest, hwork⟩ := exists_work_eq hbatch hpaired
      have hattempted := h .attempted rfl
      rw [hwork] at hattempted
      cases failsAt <;> simp [Totals.bump, Totals.countAll, Work.performed, Work.amount] at hattempted
    · rintro ⟨hpairing, hsucceeded⟩ c hc
      have hnone := total_work_of_unpaired hpairing hsucceeded hc
      have hperformed := @Work.total_performed_le c (work batch scrape) failsAt
      have hother : c ≠ .batchesFailed := by
        rintro rfl
        cases hc
      have hzero : Work.total c (Work.performed failsAt (work batch scrape)) = 0 := by omega
      simp [Totals.bump, Totals.countAll, hother, hzero]

end Counted

/-! ### Whole sessions -/

section Session

variable (args : Args)

/-- The totals of what is committed of a batch. -/
def committedBy (s : LoopState) : Attempted → Counter → ℕ
  | .notStarted _, _ => 0
  | .ran scrape _ takes failsAt, c =>
    if Work.commits failsAt (work (s.batch args) scrape) = true then
      writtenBy (s.batch args) scrape { s.store with clock := s.store.clock + takes } c
    else 0

/-- What is committed of the next batch, if there is one. -/
def committedIn (s : LoopState) (o : Attempted) (c : Counter) : ℕ :=
  if s.goesOn args = true then committedBy args s o c else 0

/-- The attempts that are committed of a batch. -/
def attemptsIn (s : LoopState) : Attempted → List Attempt
  | .notStarted _ => []
  | .ran scrape _ takes failsAt =>
    if Work.commits failsAt (work (s.batch args) scrape) = true then
      recorded (s.batch args) scrape (s.store.clock + takes)
    else []

/-- Who is tried in a batch: whoever an attempt is recorded for, or the whole batch, where the write
fails. -/
def triedIn (s : LoopState) : Attempted → List Uuid
  | .notStarted _ => []
  | .ran scrape cost takes failsAt =>
    if Work.commits failsAt (work (s.batch args) scrape) = true then
      (attemptsIn args s (.ran scrape cost takes failsAt)).map Attempt.contractorId
    else (s.batch args).map Contractor.id

/-- **Writes that fail leave no trace, and no trap**, in a session: in every state the totals are
those of the batches that have been committed; no batch is of a contractor that was tried before; and
the loop ends. -/
structure FailSafe (env : ℕ → Attempted) (s₀ : LoopState) : Prop where
  totals : ∀ n c, c.isReported = true → (stateAfter args env s₀ n).totals.count c =
    s₀.totals.count c + ∑ k ∈ Finset.range n, committedIn args (stateAfter args env s₀ k) (env k) c
  onward : ∀ n, (stateAfter args env s₀ n).goesOn args = true →
    ∀ x ∈ (stateAfter args env s₀ n).batch args, ∀ k < n,
      x.id ∉ triedIn args (stateAfter args env s₀ k) (env k)
  ends : ∃ n, (stateAfter args env s₀ n).goesOn args = false

/-- **A batch goes smoothly**: the write commits, and all its reviews are fresh; and unless there is
a limit, something is paired, or the run has succeeded. A write that fails has counted nothing
before, and is the last one, by the limit or by the cap. -/
def Attempted.Smooth (s : LoopState) : Attempted → Prop
  | .notStarted _ => True
  | .ran scrape cost _ failsAt =>
    if Work.commits failsAt (work (s.batch args) scrape) = true then
      FreshReviews (s.batch args) scrape s.store.staging ∧ (s.remaining.isSome = true ∨
        ¬ (pairing (s.batch args) scrape = [] ∧ scrape.succeeded = false))
    else (pairing (s.batch args) scrape = [] ∧ scrape.succeeded = false) ∧
      (s.remaining = some (s.batch args).length ∨
        args.maxSpend ≤ args.alreadySpent + (s.totals.spend + cost))

/-- **A session goes smoothly**: it takes less time than a contractor is left alone, and each of its
batches goes smoothly. -/
def SmoothSession (env : ℕ → Attempted) (s₀ : LoopState) : Prop :=
  ∀ n, (stateAfter args env s₀ n).goesOn args = true →
    (stateAfter args env s₀ n).store.clock < s₀.store.clock + args.retryAfterDays * 86400 ∧
      (env n).Smooth args (stateAfter args env s₀ n)

variable {args} {env : ℕ → Attempted} {s s₀ : LoopState} {o : Attempted} {n : ℕ}

theorem next_of_goesOn_eq_false (h : s.goesOn args = false) : s.next args o = s := by
  rw [LoopState.next, h]
  rfl

theorem totals_next (h : s.goesOn args = true) :
    (s.next args o).totals = (processBatch (s.batch args) s.store s.totals o).2 := by
  rw [LoopState.next, if_pos h]

theorem remaining_next (h : s.goesOn args = true) :
    (s.next args o).remaining = s.remaining.map fun n => n - (s.batch args).length := by
  rw [LoopState.next, if_pos h]

/-- A batch that goes on has somebody. -/
theorem batch_ne_nil (h : s.goesOn args = true) : s.batch args ≠ [] := by
  rintro hnone
  simp [LoopState.goesOn, hnone] at h

/-- **One batch that goes smoothly** keeps the totals those of what is committed. -/
theorem count_next (h : s.goesOn args = true → o.Smooth args s) {c : Counter}
    (hc : c.isReported = true) :
    (s.next args o).totals.count c = s.totals.count c + committedIn args s o c := by
  by_cases hon : s.goesOn args = true
  · have hsmooth := h hon
    rw [totals_next hon, committedIn, if_pos hon]
    cases o with
    | notStarted takes =>
      have hother : c ≠ .batchesFailed := by
        rintro rfl
        cases hc
      simp [processBatch, Totals.bump, hother, committedBy]
    | ran scrape cost takes failsAt =>
      have hiff := @counts_iff (s.batch args) scrape { s.store with clock := s.store.clock + takes }
        failsAt { s.totals with consecutiveStartFailures := 0, spend := s.totals.spend + cost }
        (batch_ne_nil hon)
      refine (hiff.mpr ?_) c hc
      rw [Attempted.Smooth] at hsmooth
      split at hsmooth
      · rename_i hcommits
        rw [if_pos hcommits]
        exact hsmooth.1
      · rename_i hcommits
        rw [if_neg hcommits]
        exact hsmooth.1
  · have hoff : s.goesOn args = false := eq_false_of_ne_true hon
    rw [next_of_goesOn_eq_false hoff, committedIn, if_neg hon]
    rfl

/-- The totals of a session that goes smoothly. -/
theorem count_stateAfter (h : SmoothSession args env s₀) {c : Counter} (hc : c.isReported = true)
    (n : ℕ) : (stateAfter args env s₀ n).totals.count c = s₀.totals.count c +
      ∑ k ∈ Finset.range n, committedIn args (stateAfter args env s₀ k) (env k) c := by
  induction n with
  | zero => simp [stateAfter]
  | succ n ih =>
    rw [stateAfter, count_next (fun hon => (h n hon).2) hc, ih, Finset.sum_range_succ, Nat.add_assoc]

/-! ### Who is tried -/

/-- An attempt has been recorded since a time. -/
def Staging.triedSince (s : Staging) (start : Instant) (id : Uuid) : Bool :=
  s.attempts.any fun a => a.contractorId = id && start ≤ a.attemptedAt

/-- A contractor that is asked about was not asked about lately. -/
theorem not_isAttempted_of_mem_loadBatch {store : Store} {selection : Selection} {c : Contractor}
    (h : c ∈ loadBatch store selection) :
    store.isAttempted selection.retryAfterDays c.id = false := by
  obtain ⟨l, -, hselects, hid⟩ := exists_of_mem_loadBatch h
  simp only [Store.selects, Bool.and_eq_true, Bool.not_eq_true'] at hselects
  exact hid ▸ hselects.1.1.1.2

/-- In a session that takes less time than a contractor is left alone, nobody of a batch has been
tried. -/
theorem not_triedSince_of_mem_batch {start : Instant} {x : Contractor} (hx : x ∈ s.batch args)
    (htime : s.store.clock < start + args.retryAfterDays * 86400) :
    s.store.staging.triedSince start x.id = false := by
  have hfresh := not_isAttempted_of_mem_loadBatch hx
  rw [Store.isAttempted, List.any_eq_false] at hfresh
  rw [Staging.triedSince, List.any_eq_false]
  intro a ha htried
  refine hfresh a ha ?_
  simp only [Bool.and_eq_true, decide_eq_true_eq] at htried ⊢
  exact ⟨htried.1, lt_of_lt_of_le htime (Nat.add_le_add_right htried.2 _)⟩

/-- What is recorded of a batch is about its contractors. -/
theorem of_mem_recorded {batch : List Contractor} {scrape : Scrape} {now : Instant} {a : Attempt}
    (h : a ∈ recorded batch scrape now) :
    (∃ c ∈ batch, c.id = a.contractorId) ∧ a.attemptedAt = now := by
  rw [recorded, List.mem_append] at h
  rcases h with h | h
  · obtain ⟨x, hx, rfl⟩ := List.mem_map.mp h
    exact ⟨⟨x.contractor, (mem_scored.mp (mem_scored_of_mem_pairing hx)).2.1, rfl⟩, rfl⟩
  · split at h
    · obtain ⟨c, hc, rfl⟩ := List.mem_map.mp h
      exact ⟨⟨c, (List.mem_filter.mp hc).1, rfl⟩, rfl⟩
    · cases h

/-- Something is recorded, if anything is paired, or the run has succeeded. -/
theorem exists_mem_recorded {batch : List Contractor} {scrape : Scrape} {now : Instant}
    (hbatch : batch ≠ []) (hpaired : ¬ (pairing batch scrape = [] ∧ scrape.succeeded = false)) :
    ∃ a, a ∈ recorded batch scrape now := by
  refine List.exists_mem_of_ne_nil _ fun hnone => hpaired ?_
  rw [recorded, List.append_eq_nil_iff, List.map_eq_nil_iff] at hnone
  refine ⟨hnone.1, eq_false_of_ne_true fun hsucceeded => hbatch ?_⟩
  simpa [hsucceeded, unmatched_of_unpaired hnone.1] using hnone.2

/-- The attempts after a batch. -/
theorem attempts_next (hon : s.goesOn args = true) : (s.next args o).store.staging.attempts =
    s.store.staging.attempts ++ attemptsIn args s o := by
  rw [LoopState.next, if_pos hon]
  cases o with
  | notStarted takes => simp [processBatch, attemptsIn]
  | ran scrape cost takes failsAt =>
    by_cases hcommits : Work.commits failsAt (work (s.batch args) scrape) = true <;>
      simp [processBatch, writeBatchFailing, attemptsIn, hcommits, writeBatch]

theorem listings_next : (s.next args o).store.listings = s.store.listings := by
  rw [LoopState.next]
  split
  · cases o with
    | notStarted takes => rfl
    | ran scrape cost takes failsAt =>
      simp only [processBatch, writeBatchFailing]
      split <;> rfl
  · rfl

theorem clock_le_next : s.store.clock ≤ (s.next args o).store.clock := by
  rw [LoopState.next]
  split
  · cases o with
    | notStarted takes => exact (Nat.le_add_right _ _).trans (Nat.le_add_right _ _)
    | ran scrape cost takes failsAt =>
      simp only [processBatch, writeBatchFailing]
      split <;> exact (Nat.le_add_right _ _).trans (Nat.le_add_right _ _)
  · exact le_rfl

/-- Whoever was tried stays tried. -/
theorem triedSince_next {start : Instant} {id : Uuid}
    (h : s.store.staging.triedSince start id = true) :
    (s.next args o).store.staging.triedSince start id = true := by
  by_cases hon : s.goesOn args = true
  · rw [Staging.triedSince, attempts_next hon, List.any_append, Bool.or_eq_true]
    exact .inl h
  · rwa [next_of_goesOn_eq_false (eq_false_of_ne_true hon)]

/-- An attempt of a batch is a later one. -/
theorem of_mem_attemptsIn {a : Attempt} (h : a ∈ attemptsIn args s o) :
    (∃ x ∈ s.batch args, x.id = a.contractorId) ∧ s.store.clock ≤ a.attemptedAt := by
  cases o with
  | notStarted takes => cases h
  | ran scrape cost takes failsAt =>
    rw [attemptsIn] at h
    split at h
    · obtain ⟨hbatch, htime⟩ := of_mem_recorded h
      exact ⟨hbatch, htime ▸ Nat.le_add_right _ _⟩
    · cases h

theorem triedSince_of_mem_attemptsIn {start : Instant} (hon : s.goesOn args = true)
    (hstart : start ≤ s.store.clock) {a : Attempt} (h : a ∈ attemptsIn args s o) :
    (s.next args o).store.staging.triedSince start a.contractorId = true := by
  rw [Staging.triedSince, attempts_next hon, List.any_append, Bool.or_eq_true]
  refine .inr (List.any_eq_true.mpr ⟨a, h, ?_⟩)
  simp [hstart.trans (of_mem_attemptsIn h).2]

/-- **A write that fails smoothly is the last one.** -/
theorem goesOn_next_of_failed (hon : s.goesOn args = true) {scrape : Scrape} {cost : ℚ} {takes : ℕ}
    {failsAt : Option ℕ} (hsmooth : (Attempted.ran scrape cost takes failsAt).Smooth args s)
    (hfailed : ¬ Work.commits failsAt (work (s.batch args) scrape) = true) :
    (s.next args (.ran scrape cost takes failsAt)).goesOn args = false := by
  rw [Attempted.Smooth, if_neg hfailed] at hsmooth
  refine eq_false_of_ne_true fun hnext => ?_
  rw [LoopState.goesOn] at hnext
  simp only [Bool.and_eq_true, decide_eq_true_eq, remaining_next hon, totals_next hon] at hnext
  obtain ⟨⟨⟨hremaining, hspend⟩, -⟩, -⟩ := hnext
  rcases hsmooth.2 with hlast | hcap
  · refine hremaining ?_
    rw [hlast, Option.map_some, Nat.sub_self]
  · refine absurd hspend (not_lt.mpr ?_)
    have hcost : (processBatch (s.batch args) s.store s.totals
        (.ran scrape cost takes failsAt)).2.spend = s.totals.spend + cost := by
      simp only [processBatch, writeBatchFailing, if_neg hfailed]
      rfl
    rw [hcost]
    exact hcap

/-! ### Runs of a session -/

section Runs

variable (hsmooth : SmoothSession args env s₀)

theorem clock_le_stateAfter (n : ℕ) :
    s₀.store.clock ≤ (stateAfter args env s₀ n).store.clock := by
  induction n with
  | zero => exact le_rfl
  | succ n ih => exact ih.trans clock_le_next

/-- A loop that goes on has gone on. -/
theorem goesOn_of_succ (h : (stateAfter args env s₀ (n + 1)).goesOn args = true) :
    (stateAfter args env s₀ n).goesOn args = true := by
  by_contra hoff
  rw [stateAfter, next_of_goesOn_eq_false (eq_false_of_ne_true hoff)] at h
  exact hoff h

include hsmooth

/-- **Whoever was tried has an attempt**, as long as the session goes on. -/
theorem triedSince_of_mem_triedIn (hon : (stateAfter args env s₀ n).goesOn args = true) {k : ℕ}
    (hk : k < n) {id : Uuid} (h : id ∈ triedIn args (stateAfter args env s₀ k) (env k)) :
    (stateAfter args env s₀ n).store.staging.triedSince s₀.store.clock id = true := by
  induction n with
  | zero => exact absurd hk (Nat.not_lt_zero k)
  | succ n ih =>
    have hbefore := goesOn_of_succ hon
    rcases Nat.lt_succ_iff_lt_or_eq.mp hk with hlt | rfl
    · exact triedSince_next (ih hbefore hlt)
    · cases ho : env k with
      | notStarted takes =>
        rw [ho] at h
        cases h
      | ran scrape cost takes failsAt =>
        have hstep := (hsmooth k hbefore).2
        rw [ho] at h hstep
        by_cases hcommits :
            Work.commits failsAt (work ((stateAfter args env s₀ k).batch args) scrape) = true
        · rw [triedIn, if_pos hcommits] at h
          obtain ⟨a, ha, rfl⟩ := List.mem_map.mp h
          rw [stateAfter, ho]
          exact triedSince_of_mem_attemptsIn hbefore (clock_le_stateAfter k) ha
        · have hoff := goesOn_next_of_failed hbefore hstep hcommits
          rw [stateAfter, ho, hoff] at hon
          cases hon

/-- **Nobody is tried twice.** -/
theorem not_mem_triedIn (hon : (stateAfter args env s₀ n).goesOn args = true) {x : Contractor}
    (hx : x ∈ (stateAfter args env s₀ n).batch args) {k : ℕ} (hk : k < n) :
    x.id ∉ triedIn args (stateAfter args env s₀ k) (env k) := by
  intro htried
  have htrue := triedSince_of_mem_triedIn hsmooth hon hk htried
  rw [not_triedSince_of_mem_batch hx (hsmooth n hon).1] at htrue
  cases htrue

omit hsmooth in
/-- How far a loop without a limit has to go: who has not been tried, and how often a run may still
not be started. -/
def toGo (start : Instant) (s : LoopState) : ℕ :=
  (maxConsecutiveStartFailures + 1) *
      s.store.listings.rows.countP (fun l => !s.store.staging.triedSince start l.id) +
    (maxConsecutiveStartFailures - s.totals.consecutiveStartFailures)

omit hsmooth in
/-- A batch that has an attempt leaves fewer to be tried. -/
theorem countP_untried_next (hon : s.goesOn args = true) {start : Instant}
    (hstart : start ≤ s.store.clock)
    (htime : s.store.clock < start + args.retryAfterDays * 86400) {a : Attempt}
    (ha : a ∈ attemptsIn args s o) :
    (s.next args o).store.listings.rows.countP
        (fun l => !(s.next args o).store.staging.triedSince start l.id) <
      s.store.listings.rows.countP fun l => !s.store.staging.triedSince start l.id := by
  obtain ⟨⟨x, hx, hid⟩, -⟩ := of_mem_attemptsIn ha
  obtain ⟨l, hl, -, hlx⟩ := exists_of_mem_loadBatch hx
  have hbefore := not_triedSince_of_mem_batch hx htime
  have hafter := triedSince_of_mem_attemptsIn hon hstart ha
  rw [← hid, ← hlx] at hafter
  rw [← hlx] at hbefore
  rw [listings_next]
  -- the listing of the attempt no longer counts, and no other one starts to
  obtain ⟨front, rest, hrows⟩ := List.append_of_mem hl
  have hmono : ∀ rows : List Listing,
      rows.countP (fun l => !(s.next args o).store.staging.triedSince start l.id) ≤
        rows.countP fun l => !s.store.staging.triedSince start l.id := by
    intro rows
    refine List.countP_mono_left fun l _ hfresh => ?_
    rw [Bool.not_eq_true'] at hfresh ⊢
    refine eq_false_of_ne_true fun htried => ?_
    rw [triedSince_next htried] at hfresh
    cases hfresh
  have hfront := hmono front
  have hrest := hmono rest
  rw [hrows, List.countP_append, List.countP_append, List.countP_cons, List.countP_cons, hbefore,
    hafter]
  simp only [Bool.not_true, Bool.not_false, if_true, Bool.false_eq_true, if_false]
  omega

omit hsmooth in
/-- Where no run is started, the listings and the attempts stay. -/
theorem toGo_next_of_notStarted {start : Instant} (hon : s.goesOn args = true) (takes : ℕ) :
    toGo start (s.next args (.notStarted takes)) < toGo start s := by
  have hfew : s.totals.consecutiveStartFailures < maxConsecutiveStartFailures := by
    rw [LoopState.goesOn, Bool.and_eq_true, decide_eq_true_eq] at hon
    exact hon.2
  have hfailures : (s.next args (.notStarted takes)).totals.consecutiveStartFailures =
      s.totals.consecutiveStartFailures + 1 := by
    rw [totals_next hon]
    rfl
  have hstaging : (s.next args (.notStarted takes)).store.staging = s.store.staging := by
    rw [LoopState.next, if_pos hon]
    rfl
  rw [toGo, toGo, hfailures, hstaging, listings_next]
  omega

omit hsmooth in
/-- **A smooth batch brings a loop without a limit on.** -/
theorem toGo_next {start : Instant} (hon : s.goesOn args = true)
    (hnext : (s.next args o).goesOn args = true) (hstart : start ≤ s.store.clock)
    (htime : s.store.clock < start + args.retryAfterDays * 86400) (hstep : o.Smooth args s)
    (hlimit : s.remaining = none) : toGo start (s.next args o) < toGo start s := by
  cases o with
  | notStarted takes => exact toGo_next_of_notStarted hon takes
  | ran scrape cost takes failsAt =>
    by_cases hcommits : Work.commits failsAt (work (s.batch args) scrape) = true
    · have hsome : ∃ a, a ∈ attemptsIn args s (.ran scrape cost takes failsAt) := by
        rw [Attempted.Smooth, if_pos hcommits] at hstep
        rw [attemptsIn, if_pos hcommits]
        refine exists_mem_recorded (batch_ne_nil hon) (hstep.2.resolve_left ?_)
        rw [hlimit]
        exact Bool.false_ne_true
      obtain ⟨a, ha⟩ := hsome
      have hcount := countP_untried_next hon hstart htime ha
      rw [toGo, toGo, maxConsecutiveStartFailures]
      omega
    · rw [goesOn_next_of_failed hon hstep hcommits] at hnext
      cases hnext

/-- **The loop ends.** -/
theorem exists_goesOn_eq_false : ∃ n, (stateAfter args env s₀ n).goesOn args = false := by
  by_contra hends
  have hon : ∀ n, (stateAfter args env s₀ n).goesOn args = true := fun n =>
    (Bool.eq_false_or_eq_true _).resolve_right fun h => hends ⟨n, h⟩
  cases hlimit : s₀.remaining with
  | some r =>
    -- every batch takes somebody off the limit
    have hleft : ∀ n, ∃ m, (stateAfter args env s₀ n).remaining = some m ∧ m + n ≤ r := by
      intro n
      induction n with
      | zero => exact ⟨r, hlimit, le_rfl⟩
      | succ n ih =>
        obtain ⟨m, hm, hle⟩ := ih
        have hbatch := List.length_pos_of_ne_nil (batch_ne_nil (hon n))
        have hpos : m ≠ 0 := by
          rintro rfl
          have hgoes := hon n
          simp [LoopState.goesOn, hm] at hgoes
        refine ⟨_, by rw [stateAfter, remaining_next (hon n), hm, Option.map_some], ?_⟩
        omega
    obtain ⟨m, -, hm⟩ := hleft (r + 1)
    omega
  | none =>
    have hnone : ∀ n, (stateAfter args env s₀ n).remaining = none := by
      intro n
      induction n with
      | zero => exact hlimit
      | succ n ih => rw [stateAfter, remaining_next (hon n), ih, Option.map_none]
    have hless : ∀ n, toGo s₀.store.clock (stateAfter args env s₀ n) + n ≤
        toGo s₀.store.clock s₀ := by
      intro n
      induction n with
      | zero => exact le_rfl
      | succ n ih =>
        have hstep := toGo_next (hon n) (hon (n + 1)) (clock_le_stateAfter n)
          (hsmooth n (hon n)).1 (hsmooth n (hon n)).2 (hnone n)
        rw [stateAfter]
        omega
    have := hless (toGo s₀.store.clock s₀ + 1)
    omega

end Runs

/-- **A session that goes smoothly leaves no trace of what failed, and no trap.** -/
theorem failSafe_of_smooth (args : Args) (env : ℕ → Attempted) (store : Store) (limit : Option ℕ)
    (h : SmoothSession args env { store := store, remaining := limit }) :
    FailSafe args env { store := store, remaining := limit } where
  totals n _ hc := count_stateAfter h hc n
  onward _ hon _ hx _ hk := not_mem_triedIn h hon hx hk
  ends := exists_goesOn_eq_false h

/-- A state in which the loop has ended stays. -/
theorem stateAfter_of_ended {args : Args} {env : ℕ → Attempted} {s₀ : LoopState} {m : ℕ}
    (h : (stateAfter args env s₀ m).goesOn args = false) (n : ℕ) :
    stateAfter args env s₀ (m + n) = stateAfter args env s₀ m := by
  induction n with
  | zero => rfl
  | succ n ih => rw [← Nat.add_assoc, stateAfter, ih, next_of_goesOn_eq_false h]

end Session

/-- Two contractors of Los Angeles. -/
def twoListed : Store := step {} relisted

/-- A month between two attempts, and a cap. -/
def monthly : Args where
  retryAfterDays := 30
  maxSpend := 50

/-- Every run finds one place, and may fail at a statement. -/
def onePlace (failsAt : Option ℕ) : ℕ → Attempted := fun _ =>
  .ran (scraping "a" .confirmed) 1 60 failsAt

/-- A session in which both contractors are tried in one batch. -/
theorem failSafe_of_smooth_twoListed :
    FailSafe monthly (onePlace none) { store := twoListed, remaining := none } := by
  refine failSafe_of_smooth monthly (onePlace none) twoListed none ?_
  have hended : (stateAfter monthly (onePlace none) { store := twoListed, remaining := none }
      1).goesOn monthly = false := by decide +kernel
  intro n hon
  rcases n with _ | n
  · refine ⟨by decide +kernel, ?_⟩
    show (Attempted.ran (scraping "a" .confirmed) 1 60 none).Smooth monthly
      { store := twoListed, remaining := none }
    rw [Attempted.Smooth, if_pos (by decide +kernel), FreshReviews]
    exact ⟨by decide +kernel, .inr fun h => absurd h.2 (by decide)⟩
  · rw [Nat.add_comm, stateAfter_of_ended hended, hended] at hon
    cases hon

/-- **A write that fails leaves a trace, and is a trap**: an attempt is counted that has not been
recorded, and the same batch is paid for again. -/
theorem not_failSafe :
    ¬ FailSafe monthly (onePlace (some 0)) { store := twoListed, remaining := none } ∧
      (stateAfter monthly (onePlace (some 0)) { store := twoListed, remaining := none } 2).totals.spend
        = 2 ∧
      (stateAfter monthly (onePlace (some 0)) { store := twoListed, remaining := none } 1).batch
        monthly = LoopState.batch monthly { store := twoListed, remaining := none } := by
  refine ⟨fun h => ?_, by decide +kernel, by decide +kernel⟩
  have htotals := h.totals 1 .attempted rfl
  have hcounted : (stateAfter monthly (onePlace (some 0)) { store := twoListed, remaining := none }
      1).totals.count .attempted = 1 := by decide +kernel
  have hcommitted : committedIn monthly (stateAfter monthly (onePlace (some 0))
      { store := twoListed, remaining := none } 0) (onePlace (some 0) 0) .attempted = 0 := by
    decide +kernel
  rw [hcounted, Finset.sum_range_one, hcommitted] at htotals
  cases htotals

end Marketplace.Enrichment
