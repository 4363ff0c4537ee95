import Marketplace.Auth.Users
import Marketplace.Board.Pagination
import Mathlib.Data.Option.NAry

/-!
# Saved searches and the reverse match

A saved search is the filters of the board frozen as columns, and the alert pass asks for
each new job which saved searches it satisfies. The board's predicate has filters in and
jobs out; the reverse match has a join in its place, with the same conjuncts on the
columns a search was stored in.

The two agree (`Marketplace.Board.joins_holds_iff`): a search that encodes filters joins
exactly the open jobs that the filters list. What is stored survives the updates that a
search sees (`Marketplace.Board.Saved.encodes`), so `Marketplace.Board.mem_matches_iff`
says it of every search a request made, and of the board walked page by page.
-/

namespace Marketplace.Board

open Search Sql

/-! ### Rows -/

/-- A row of `saved_searches`. -/
structure SavedSearch where
  id : Uuid
  userId : Uuid
  name : Text
  query : Option Text
  /-- What the query text asked for when the search was saved. -/
  queryTradeIds : Option (List Uuid)
  /-- `none` is any trade. -/
  tradeIds : Option (List Uuid)
  postalCode : Option Text
  center : Option Point
  radiusM : Option ℚ
  timeline : Option JobTimeline
  buildType : Option BuildType
  budgetMinCents : Option ℕ
  /-- The unsubscribe bit. -/
  notify : Bool
  lastNotifiedAt : Option Instant
  createdAt : Instant
  deriving DecidableEq

/-- The constraints on a row. -/
def SavedSearch.checks (s : SavedSearch) : Bool :=
  (1 ≤ s.name.length && s.name.length ≤ 120) &&
    s.query.all (fun q => q.length ≤ 200) &&
    s.postalCode.all isZip &&
    s.radiusM.all (fun r => 0 < r && r ≤ 200000) &&
    s.center.isNone = s.radiusM.isNone

/-- An address of an account, and when it was proved. -/
structure Address where
  address : Text
  verifiedAt : Option Instant
  deriving DecidableEq

/-- A row of `users`, as far as alerts read it. A proof is a proof of an address, so an
account without one has none. -/
structure Account where
  id : Uuid
  status : UserStatus
  email : Option Address
  deriving DecidableEq

/-! ### Saving -/

/-- `MAX_PER_USER`. -/
def maxPerUser : ℕ := 20

/-- The row that filters are stored in. -/
def searchRow (id userId : Uuid) (name : Text) (f : Filters) (now : Instant) : SavedSearch where
  id := id
  userId := userId
  name := name
  query := f.query
  queryTradeIds := boundTrades f.queryTradeIds
  tradeIds := f.tradeIds
  postalCode := f.postalCode
  center := f.near.map Near.center
  radiusM := f.near.map Near.radiusM
  timeline := f.timeline
  buildType := f.buildType
  budgetMinCents := f.budgetMinCents
  notify := true
  lastNotifiedAt := none
  createdAt := now

/-- `create`, for an account that already has some searches. -/
def create (id userId : Uuid) (name : Text) (f : Filters) (now : Instant) (owned : ℕ) :
    Except AppError SavedSearch :=
  if owned < maxPerUser then
    if (searchRow id userId name f now).checks then .ok (searchRow id userId name f now)
    else .error (.internal "check constraint")
  else .error
    (.invalid "You already have 20 saved searches. Delete one to save another.")

/-- **`create_saved_search`**: save a search from the query string of the board. -/
def createSavedSearch (env : Search.Env) (vocabulary : Vocabulary) (id userId : Uuid) (name : Text)
    (raw : RawQuery) (now : Instant) (owned : ℕ) : Except AppError SavedSearch :=
  let name := trim name
  if name.isEmpty || 120 < name.length then
    .error (.invalid "Give the search a name, up to 120 characters.")
  else do
    let query ← resolve env vocabulary raw
    create id userId name query.filters now owned

/-- `set_notify_off`. -/
def SavedSearch.setNotifyOff (s : SavedSearch) : SavedSearch := { s with notify := false }

/-- `touch_notified`. -/
def SavedSearch.touchNotified (s : SavedSearch) (now : Instant) : SavedSearch :=
  { s with lastNotifiedAt := some now }

/-! ### Matching -/

variable (env : Search.Env)

/-- One search and one job that should alert. -/
structure AlertMatch where
  searchId : Uuid
  searchName : Text
  userId : Uuid
  email : Text
  jobId : Uuid
  deriving DecidableEq

/-- The condition on which a search joins a job. -/
def joins (s : SavedSearch) (j : Job) : Truth :=
  (Truth.ofBool s.notify).and <|
  ((isNull s.tradeIds).or (eqAny j.tradeId s.tradeIds)).and <|
  ((isNull s.postalCode).or (eq (some j.postalCode) s.postalCode)).and <|
  ((isNull s.center).or
    (test (fun p c => dwithin env p c.1 c.2) j.publicPoint
      (Option.map₂ Prod.mk s.center s.radiusM))).and <|
  (((isNull s.query).or (test env.textMatches (some j.searchDoc) s.query)).or
    ((isNotNull s.queryTradeIds).and (eqAny j.tradeId s.queryTradeIds))).and <|
  ((isNull s.timeline).or (eq (some j.timeline) s.timeline)).and <|
  ((isNull s.buildType).or (eq (some j.buildType) s.buildType)).and <|
  (isNull s.budgetMinCents).or (ge j.budgetMaxCents s.budgetMinCents)

/-- Whether an account joins a search: it is its owner's, in use, and its address is
proved. -/
def alertable (s : SavedSearch) (u : Account) : Bool :=
  u.id = s.userId && u.status = .active && u.email.any fun a => a.verifiedAt.isSome

/-- The condition on the job itself. -/
def considered (ids : List Uuid) (s : SavedSearch) (j : Job) : Truth :=
  (eqAny (some j.id) (some ids)).and <|
    (Truth.ofBool (j.status = .opened)).and (ne (some j.postedByUserId) (some s.userId))

/-- One row of the reverse match, with the time it is sorted by. -/
def alertMatch (j : Job) (s : SavedSearch) (u : Account) : AlertMatch × Instant :=
  (⟨s.id, s.name, s.userId, (u.email.map Address.address).getD [], j.id⟩, j.createdAt)

/-- **`matches_for_jobs`**: which saved searches each of these jobs satisfies. -/
def matchesForJobs (jobs : List Job) (searches : List SavedSearch) (accounts : List Account)
    (ids : List Uuid) : List AlertMatch :=
  let rows := jobs.flatMap fun j => searches.flatMap fun s => (accounts.filter fun u =>
    (joins env s j).holds && alertable s u && (considered ids s j).holds).map (alertMatch j s)
  (orderBy (compareLex (asc fun r => r.1.userId) (asc Prod.snd)) rows).map Prod.fst

variable {env} in
/-- **What is matched**: a search joined with a job that it satisfies and with an account
that is its owner's. -/
theorem mem_matchesForJobs {jobs : List Job} {searches : List SavedSearch}
    {accounts : List Account} {ids : List Uuid} {m : AlertMatch} :
    m ∈ matchesForJobs env jobs searches accounts ids ↔
      ∃ j ∈ jobs, ∃ s ∈ searches, ∃ u ∈ accounts, (joins env s j).holds = true ∧
        alertable s u = true ∧ (considered ids s j).holds = true ∧ m = (alertMatch j s u).1 := by
  simp only [matchesForJobs, List.mem_map, mem_orderBy, List.mem_flatMap, List.mem_filter,
    Bool.and_eq_true]
  constructor
  · rintro ⟨r, ⟨j, hj, s, hs, u, ⟨hu, ⟨hjoins, halert⟩, hcons⟩, rfl⟩, rfl⟩
    exact ⟨j, hj, s, hs, u, hu, hjoins, halert, hcons, rfl⟩
  · rintro ⟨j, hj, s, hs, u, hu, hjoins, halert, hcons, rfl⟩
    exact ⟨_, ⟨j, hj, s, hs, u, ⟨hu, ⟨hjoins, halert⟩, hcons⟩, rfl⟩, rfl⟩

/-! ### What is stored -/

/-- **A search encodes filters**: every column is the filter it was stored from. -/
structure SavedSearch.Encodes (s : SavedSearch) (f : Filters) : Prop where
  query : s.query = f.query
  queryTradeIds : s.queryTradeIds = boundTrades f.queryTradeIds
  tradeIds : s.tradeIds = f.tradeIds
  postalCode : s.postalCode = f.postalCode
  center : s.center = f.near.map Near.center
  radiusM : s.radiusM = f.near.map Near.radiusM
  timeline : s.timeline = f.timeline
  buildType : s.buildType = f.buildType
  budgetMinCents : s.budgetMinCents = f.budgetMinCents

/-- **A search that was saved**: a request made it from filters, and it has been turned
off and mailed about since. -/
inductive Saved (f : Filters) : SavedSearch → Prop
  /-- A request made it, from a query string that resolved to the filters. -/
  | created {vocabulary : Vocabulary} {id userId : Uuid} {name : Text} {raw : RawQuery}
      {now : Instant} {owned : ℕ} {query : JobQuery} {s : SavedSearch}
      (hq : resolve env vocabulary raw = .ok query) (hf : query.filters = f)
      (h : createSavedSearch env vocabulary id userId name raw now owned = .ok s) : Saved f s
  /-- Its owner unsubscribed. -/
  | unsubscribed {s : SavedSearch} (h : Saved f s) : Saved f s.setNotifyOff
  /-- A digest named it. -/
  | notified {s : SavedSearch} (now : Instant) (h : Saved f s) : Saved f (s.touchNotified now)

theorem searchRow_encodes (id userId : Uuid) (name : Text) (f : Filters) (now : Instant) :
    (searchRow id userId name f now).Encodes f where
  query := rfl
  queryTradeIds := rfl
  tradeIds := rfl
  postalCode := rfl
  center := rfl
  radiusM := rfl
  timeline := rfl
  buildType := rfl
  budgetMinCents := rfl

variable {env}

/-- A request stores the filters that its query string resolves to. -/
theorem createSavedSearch_eq {vocabulary : Vocabulary} {id userId : Uuid} {name : Text}
    {raw : RawQuery} {now : Instant} {owned : ℕ} {query : JobQuery} {s : SavedSearch}
    (hq : resolve env vocabulary raw = .ok query)
    (h : createSavedSearch env vocabulary id userId name raw now owned = .ok s) :
    s = searchRow id userId (trim name) query.filters now := by
  rw [createSavedSearch, hq] at h
  split at h
  · exact absurd h (by simp)
  · change create id userId (trim name) query.filters now owned = .ok s at h
    rw [create] at h
    split at h
    · split at h
      · exact (Except.ok.inj h).symm
      · exact absurd h (by simp)
    · exact absurd h (by simp)

/-- What a query string resolves to is within the bounds of the columns. -/
theorem filters_of_resolve {vocabulary : Vocabulary} {raw : RawQuery} {query : JobQuery}
    (h : resolve env vocabulary raw = .ok query) :
    (∀ q ∈ query.filters.query, q.length ≤ 200) ∧
      (∀ z ∈ query.filters.postalCode, isZip z = true) ∧
      ∀ n ∈ query.filters.near, 0 < n.radiusM ∧ n.radiusM ≤ 200000 := by
  obtain ⟨q, hq, rfl⟩ := resolve_eq h
  obtain ⟨-, -, -, hf⟩ := parse_eq hq
  simp only [hf]
  refine ⟨fun t ht => ?_, fun z hz => parseZip_isZip hz, fun n hn => ?_⟩
  · obtain ⟨s, -, rfl⟩ := Option.map_eq_some_iff.mp ht
    exact (List.length_take_le _ _).trans (by decide)
  · obtain ⟨hlow, hhigh⟩ := parseNear_radius hn
    exact ⟨lt_of_lt_of_le one_pos hlow, hhigh⟩

/-- **No constraint refuses a search that the board would run.** -/
theorem searchRow_checks {vocabulary : Vocabulary} {raw : RawQuery} {query : JobQuery}
    (h : resolve env vocabulary raw = .ok query) (id userId : Uuid) {name : Text}
    (hname : name ≠ []) (hlen : name.length ≤ 120) (now : Instant) :
    (searchRow id userId name query.filters now).checks = true := by
  obtain ⟨hquery, hzip, hnear⟩ := filters_of_resolve h
  have hq : (searchRow id userId name query.filters now).query.all
      (fun q => decide (q.length ≤ 200)) = true := by
    rw [Option.all_eq_true]
    exact fun q hq => decide_eq_true (hquery q hq)
  have hz : (searchRow id userId name query.filters now).postalCode.all isZip = true := by
    rw [Option.all_eq_true]
    exact hzip
  have hr : (searchRow id userId name query.filters now).radiusM.all
      (fun r => decide (0 < r) && decide (r ≤ 200000)) = true := by
    rw [Option.all_eq_true]
    intro r hr
    obtain ⟨n, hn, rfl⟩ := Option.map_eq_some_iff.mp hr
    simp [hnear n hn]
  have hc : (searchRow id userId name query.filters now).center.isNone =
      (searchRow id userId name query.filters now).radiusM.isNone := by
    simp [searchRow]
  have hn : (1 ≤ (searchRow id userId name query.filters now).name.length &&
      (searchRow id userId name query.filters now).name.length ≤ 120) = true := by
    simp [searchRow, hlen, Nat.one_le_iff_ne_zero, hname]
  rw [SavedSearch.checks, hq, hz, hr, hn, hc]
  simp

/-- **What is stored lasts**: unsubscribing and mailing leave the filters alone. -/
theorem Saved.encodes {f : Filters} {s : SavedSearch} (h : Saved env f s) : s.Encodes f := by
  induction h with
  | created hq hf h =>
    rw [createSavedSearch_eq hq h, ← hf]
    exact searchRow_encodes _ _ _ _ _
  | unsubscribed _ ih => exact { ih with }
  | notified _ _ ih => exact { ih with }

/-! ### The reverse match is the board -/

/-- **A search joins the jobs that its filters list**, as long as it is on. -/
theorem joins_holds_iff {s : SavedSearch} {f : Filters} (h : s.Encodes f) {j : Job}
    (hj : j.status = .opened) :
    (joins env s j).holds = (s.notify && (predicate env f j).holds) := by
  have hnear : ((isNull s.center).or (test (fun p c => dwithin env p c.1 c.2) j.publicPoint
      (Option.map₂ Prod.mk s.center s.radiusM))).holds =
      ((isNull f.near).or
        (test (fun p n => dwithin env p n.center n.radiusM) j.publicPoint f.near)).holds := by
    rw [h.center, h.radiusM]
    rcases f.near with _ | n
    · simp
    · rcases j.publicPoint with _ | p <;> simp
  rw [joins, predicate, ← h.query, ← h.queryTradeIds, ← h.tradeIds, ← h.postalCode, ← h.timeline,
    ← h.buildType, ← h.budgetMinCents]
  simp only [Truth.holds_and, hnear, Truth.holds_ofBool, hj, decide_true, Bool.true_and]
  ac_rfl

/-- What a search that was saved is matched with: the jobs that are open and that its
filters list, among those considered. -/
theorem pairs_iff {s : SavedSearch} {f : Filters} (h : s.Encodes f) {ids : List Uuid} {j : Job} :
    ((joins env s j).holds && (considered ids s j).holds) = true ↔
      j.id ∈ ids ∧ s.notify = true ∧ j.postedByUserId ≠ s.userId ∧
        (predicate env f j).holds = true := by
  rw [Bool.and_eq_true]
  constructor
  · rintro ⟨hjoins, hcons⟩
    simp only [considered, Truth.holds_and, Bool.and_eq_true, Truth.holds_ofBool,
      decide_eq_true_eq] at hcons
    obtain ⟨hid, hopen, hne⟩ := hcons
    rw [joins_holds_iff h hopen, Bool.and_eq_true] at hjoins
    refine ⟨?_, hjoins.1, ?_, hjoins.2⟩
    · simpa [eqAny] using hid
    · simpa [holds_ne] using hne
  · rintro ⟨hid, hnotify, hne, hpred⟩
    have hopen : j.status = .opened := ((predicate_holds env).mp hpred).1
    refine ⟨by rw [joins_holds_iff h hopen, hnotify, hpred]; rfl, ?_⟩
    simp only [considered, Truth.holds_and, Bool.and_eq_true, Truth.holds_ofBool,
      decide_eq_true_eq]
    exact ⟨by simpa [eqAny] using hid, hopen, by simpa [holds_ne] using hne⟩

variable (env) in
/-- **A job is listed**: a walk over the board with these filters comes by it. -/
def Listed (db : Db) (instants : ℕ → Instant) (limit : ℤ) (f : Filters) (j : Job) : Prop :=
  ∃ xs, Walks env db instants f .newest limit xs ∧ intoPublic env db f j ∈ xs

/-- The jobs that are listed are those that satisfy the predicate. -/
theorem listed_iff (h : env.RoundTrips) {db : Db} {instants : ℕ → Instant} {limit : ℤ}
    {f : Filters} {j : Job} (hj : j ∈ db.jobs) :
    Listed env db instants limit f j ↔ (predicate env f j).holds = true := by
  have hwalk : Walks env db instants f .newest limit (board env db (instants 0) f .newest) :=
    walks_of_total h (by simp) (Or.inl (by simp))
  constructor
  · rintro ⟨xs, hxs, hmem⟩
    obtain rfl := hxs.unique hwalk
    obtain ⟨j', hj', heq⟩ := List.mem_map.mp hmem
    obtain ⟨hdb, hpred⟩ := mem_rowsBy.mp hj'
    obtain rfl := eq_of_id_eq hdb hj (congrArg PublicJob.id heq)
    exact hpred
  · intro hpred
    exact ⟨_, hwalk, List.mem_map_of_mem (mem_rowsBy.mpr ⟨hj, hpred⟩)⟩

/-- **Alerts agree with the board.** Of saved searches, each made from filters, the reverse
match of some jobs holds exactly the pairs of a search that is on, whose owner is in use
with a proved address and did not post the job, and a job that the board lists under the
filters the search was made with. -/
theorem mem_matches_iff (h : env.RoundTrips) (db : Db) {searches : List SavedSearch}
    {filtersOf : Uuid → Filters} (hsaved : ∀ s ∈ searches, Saved env (filtersOf s.id) s)
    (accounts : List Account) (ids : List Uuid) (instants : ℕ → Instant) (limit : ℤ)
    (m : AlertMatch) :
    m ∈ matchesForJobs env db.jobs searches accounts ids ↔
      ∃ s ∈ searches, ∃ j ∈ db.jobs, ∃ u ∈ accounts, m = (alertMatch j s u).1 ∧ j.id ∈ ids ∧
        s.notify = true ∧ u.id = s.userId ∧ u.status = .active ∧
        (∃ a ∈ u.email, a.verifiedAt.isSome = true) ∧ j.postedByUserId ≠ s.userId ∧
        Listed env db instants limit (filtersOf s.id) j := by
  have halert : ∀ s u, alertable s u = true ↔ u.id = s.userId ∧ u.status = .active ∧
      ∃ a ∈ u.email, a.verifiedAt.isSome = true := by
    intro s u
    simp [alertable, Option.any_eq_true, and_assoc]
  rw [mem_matchesForJobs]
  constructor
  · rintro ⟨j, hj, s, hs, u, hu, hjoins, hal, hcons, rfl⟩
    obtain ⟨hid, hnotify, hne, hpred⟩ :=
      (pairs_iff (hsaved s hs).encodes).mp (Bool.and_eq_true_iff.mpr ⟨hjoins, hcons⟩)
    obtain ⟨howner, hactive, hproved⟩ := (halert s u).mp hal
    exact ⟨s, hs, j, hj, u, hu, rfl, hid, hnotify, howner, hactive, hproved, hne,
      (listed_iff h hj).mpr hpred⟩
  · rintro ⟨s, hs, j, hj, u, hu, rfl, hid, hnotify, howner, hactive, hproved, hne, hlisted⟩
    obtain ⟨hjoins, hcons⟩ := Bool.and_eq_true_iff.mp
      ((pairs_iff (hsaved s hs).encodes).mpr ⟨hid, hnotify, hne, (listed_iff h hj).mp hlisted⟩)
    exact ⟨j, hj, s, hs, u, hu, hjoins, (halert s u).mpr ⟨howner, hactive, hproved⟩, hcons, rfl⟩

/-! ### A search for repairs in one ZIP code -/

/-- The query string that the search is saved from. -/
def repairsRaw : RawQuery where
  q := some "bathroom".toList
  buildType := some "repair".toList
  budgetMin := some "60000".toList
  zip := some " 90026 ".toList

/-- The filters that it resolves to. -/
def repairsFilters : Filters where
  query := some "bathroom".toList
  postalCode := some "90026".toList
  buildType := some .repair
  budgetMinCents := some 60000

/-- The search, as it is stored. -/
def repairsSearch : SavedSearch := searchRow 5 8 "Repairs nearby".toList repairsFilters 30

theorem repairsSearch_saved : Saved Search.Env.plain repairsFilters repairsSearch := by
  have hq : resolve Search.Env.plain ⟨[], []⟩ repairsRaw =
      .ok ⟨.newest, repairsFilters, 20, none, []⟩ := rfl
  have hs : createSavedSearch Search.Env.plain ⟨[], []⟩ 5 8 "Repairs nearby ".toList repairsRaw 30 0
      = .ok repairsSearch := rfl
  exact .created hq rfl hs

/-- Its owner. -/
def repairsOwner : Account := ⟨8, .active, some ⟨"joe@pipes.example".toList, some 3⟩⟩

/-- The search is paired with the job that has the budget, which the board lists. -/
theorem mem_matches_iff_repairs :
    ∃ s ∈ [repairsSearch], ∃ j ∈ twoJobs.jobs, ∃ u ∈ [repairsOwner],
      (⟨5, "Repairs nearby".toList, 8, "joe@pipes.example".toList, 1⟩ : AlertMatch) =
          (alertMatch j s u).1 ∧ j.id ∈ [1, 2] ∧
        s.notify = true ∧ u.id = s.userId ∧ u.status = .active ∧
        (∃ a ∈ u.email, a.verifiedAt.isSome = true) ∧ j.postedByUserId ≠ s.userId ∧
        Listed Search.Env.plain twoJobs (fun _ => 100) 20 repairsFilters j := by
  have hsaved : ∀ s ∈ [repairsSearch], Saved Search.Env.plain repairsFilters s := by
    intro s hs
    rw [List.mem_singleton.mp hs]
    exact repairsSearch_saved
  exact (@mem_matches_iff Search.Env.plain Search.Env.plain_roundTrips twoJobs [repairsSearch]
    (fun _ => repairsFilters) hsaved [repairsOwner] [1, 2] (fun _ => 100) 20 _).mp
      (by decide +kernel)

end Marketplace.Board
