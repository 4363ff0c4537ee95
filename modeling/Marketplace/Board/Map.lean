import Marketplace.Board.Pagination

/-!
# The map of the board

The list and the map of the board are asked with one query string, and each of them builds the
filters itself. `Marketplace.Board.AllPages` is the list followed to its end; what the map shows
ought to be the located jobs among all of its pages, the newest of them where there are too
many. Two things come between them.

| a job that | is shown by the list | and by the map |
|---|---|---|
| matches only by a trade that the text asks for | yes | no: the map does not resolve the text |
| has no budget, in the order by budget | unless the jobs with one fill a page | yes |

`Marketplace.Board.list_map_agree_iff` says that these are all, and that they matter unless the
limit of the map hides them.
-/

namespace Marketplace.Board

open Search Sql

variable (env : Search.Env) (db : Db)

/-! ### Handlers -/

/-- The answer of the list. -/
structure ListResponse where
  jobs : List PublicJob
  nextCursor : Option Text
  ignoredFilters : List Text

/-- **`GET /v1/jobs`.** -/
def listHandler (now : Instant) (raw : RawQuery) : Except AppError ListResponse := do
  let query ← resolve env db.vocabulary raw
  let page := list env db now query.filters query.sort query.limit query.cursor
  return ⟨page.jobs, page.nextCursor.map (encodeCursor env), query.ignored⟩

/-- The answer of the map. -/
structure MapResponse where
  points : List JobPoint
  truncated : Bool
  limit : ℤ
  ignoredFilters : List Text

/-- **`GET /v1/jobs/map`.** The trades that the text asks for are not resolved here. -/
def mapHandler (raw : RawQuery) : Except AppError MapResponse := do
  let query ← parse env raw (rawTradeIds db.vocabulary raw)
  let (points, truncated) := mapPoints env db query.filters maxMapPoints
  return ⟨points, truncated, maxMapPoints, query.ignored⟩

/-! ### What is to agree -/

/-- The list, asked with a cursor in place of that of the query string; where it is refused it
shows nothing. -/
def listPage (instants : ℕ → Instant) (raw : RawQuery) (k : ℕ) (cursor : Option Text) :
    List PublicJob × Option Text :=
  match listHandler env db (instants k) { raw with cursor := cursor } with
  | .ok r => (r.jobs, r.nextCursor)
  | .error _ => ([], none)

/-- **All pages of the list**, from the first one on, put together. -/
def AllPages (instants : ℕ → Instant) (raw : RawQuery) (xs : List PublicJob) : Prop :=
  Keyset.Walk (listPage env db instants raw) some 0 none xs

/-- The order of the map, of jobs as they are shown. -/
def newestRow : PublicJob → PublicJob → Ordering :=
  compareLex (desc PublicJob.createdAt) (desc PublicJob.id)

/-- The pin of a job as it is shown. -/
def PublicJob.pin (j : PublicJob) : JobPoint where
  id := j.id
  title := j.title
  trade := j.trade
  lat := j.lat
  lon := j.lon
  budgetMinCents := j.budgetMinCents
  budgetMaxCents := j.budgetMaxCents

/-- **The list and the map agree** about a query string: they refuse it alike, or the map shows
the located rows among all pages of the list, in its own order and up to its limit, and says
whether there are more. -/
def ListMapAgree (instants : ℕ → Instant) (raw : RawQuery) : Prop :=
  match mapHandler env db raw with
  | .error e => listHandler env db (instants 0) raw = .error e
  | .ok m => ∃ xs, AllPages env db instants raw xs ∧
      let located := Sql.orderBy newestRow (xs.filter fun j => j.lat.isSome)
      m.points = (located.take maxMapPoints.toNat).map PublicJob.pin ∧
        m.truncated = decide (maxMapPoints.toNat < located.length)

/-! ### When they do -/

/-- The jobs a query is about. -/
def matching (f : Filters) : List Job := db.jobs.filter fun j => (predicate env f j).holds

/-- Whether a job has a point on the map. -/
def located (j : Job) : Bool := j.publicPoint.isSome

/-- Whether a matching job is on the map: the text itself matches it. -/
def shownOnMap (query : JobQuery) (j : Job) : Bool :=
  ((isNull query.filters.query).or
    (test env.textMatches (some j.searchDoc) query.filters.query)).holds

/-- Whether a matching job is on a page of the list: not without a budget, in the order by
budget, when the jobs with one fill a page. -/
def shownInList (query : JobQuery) (j : Job) : Bool :=
  query.sort ≠ .budget || j.budget.isSome ||
    (matching env db query.filters).countP (fun x => x.budget.isSome) <
      (clamp query.limit 1 maxPage).toNat

/-- **Where the list and the map show the same**: every located job that matches is shown by
both of them or by neither, unless there come before it as many jobs shown by both as the map
holds, and both have more to show. -/
def MapFits (raw : RawQuery) : Prop :=
  ∀ query, resolve env db.vocabulary raw = .ok query →
    let rows := Sql.orderBy newestFirst ((matching env db query.filters).filter located)
    ∀ l x r, rows = l ++ x :: r → shownOnMap env query x ≠ shownInList env db query x →
      maxMapPoints.toNat ≤
          l.countP (fun y => shownOnMap env query y && shownInList env db query y) ∧
        maxMapPoints.toNat < rows.countP (shownOnMap env query) ∧
        maxMapPoints.toNat < rows.countP (shownInList env db query)

/-- **Budgets that differ are different doubles**, where the query is sorted by them. Budgets
up to `2 ^ 53` cents are. -/
def BudgetsApart (raw : RawQuery) : Prop :=
  ∀ query, resolve env db.vocabulary raw = .ok query → query.sort = .budget →
    ∀ x ∈ matching env db query.filters, ∀ y ∈ matching env db query.filters,
      ∀ a ∈ x.budgetMaxCents, ∀ b ∈ y.budgetMaxCents,
        env.toFloat8 a = env.toFloat8 b → a = b

variable {env db} {instants : ℕ → Instant} {f : Filters}

/-! ### The walk of the list -/

theorem nodup_matching : (matching env db f).Nodup := nodup_jobs.filter _

theorem mem_jobs {j : Job} (h : j ∈ matching env db f) : j ∈ db.jobs := List.mem_of_mem_filter h

theorem rowsBy_perm (o : BoardOrdering) : (rowsBy env db f o).Perm (matching env db f) :=
  orderBy_perm _ _

/-- **By budget, the list loses the jobs without one** when the others fill a page. -/
theorem exists_walk_budget (h : env.RoundTrips) (hmono : Monotone env.toFloat8) (limit : ℤ)
    (hapart : ∀ x ∈ matching env db f, ∀ y ∈ matching env db f, ∀ a ∈ x.budgetMaxCents,
      ∀ b ∈ y.budgetMaxCents, env.toFloat8 a = env.toFloat8 b → a = b) :
    ∃ S, Keyset.Walk (boardPages env db instants f .budget limit) (passCursor env) 0 none S ∧
      S = (rowsBy env db f byBudget).filter fun j => j.budget.isSome ||
        decide ((matching env db f).countP (fun x => x.budget.isSome) <
          (clamp limit 1 maxPage).toNat) := by
  have hapart' : ∀ x ∈ rowsBy env db f byBudget, ∀ y ∈ rowsBy env db f byBudget,
      ∀ a ∈ x.budgetMaxCents, ∀ b ∈ y.budgetMaxCents, env.toFloat8 a = env.toFloat8 b → a = b :=
    fun x hx y hy => hapart x ((rowsBy_perm _).mem_iff.mp hx) y ((rowsBy_perm _).mem_iff.mp hy)
  have hcount : (matching env db f).countP (fun x => x.budget.isSome) =
      (rowsBy env db f byBudget).countP fun x => x.budget.isSome :=
    ((rowsBy_perm _).countP_eq _).symm
  refine ⟨_, ?_, rfl⟩
  rw [hcount]
  rcases Nat.lt_or_ge ((rowsBy env db f byBudget).countP fun x => x.budget.isSome)
    (clamp limit 1 maxPage).toNat with hfew | hmany
  · -- the walk is complete
    have hsplit : BudgetsSplit env (rowsBy env db f byBudget) (clamp limit 1 maxPage).toNat := by
      refine ⟨Or.inr hfew, fun k r hr _ x hx a ha b hb hne heq => ?_⟩
      exact absurd (hapart' r (List.mem_of_getElem? hr) x hx a ha b hb heq) hne
    have hwalks : Walks env db instants f .budget limit (board env db (instants 0) f .budget) :=
      (walks_budget_iff h hmono).mpr hsplit
    have hwalk := walks_board_iff.mp hwalks
    have hall : (rowsBy env db f byBudget).filter (fun j => j.budget.isSome ||
        decide ((rowsBy env db f byBudget).countP (fun x => x.budget.isSome) <
          (clamp limit 1 maxPage).toNat)) = rowsBy env db f byBudget := by
      rw [List.filter_eq_self]
      intro j _
      simp [hfew]
    rw [hall]
    exact hwalk
  · -- every page ends on a job with a budget
    have hkept : (rowsBy env db f byBudget).filter (fun j => j.budget.isSome ||
        decide ((rowsBy env db f byBudget).countP (fun x => x.budget.isSome) <
          (clamp limit 1 maxPage).toNat)) =
        (rowsBy env db f byBudget).filter fun j => j.budget.isSome := by
      refine List.filter_congr fun j _ => ?_
      rw [decide_eq_false (by omega), Bool.or_false]
    rw [hkept, boardPages_eq_of_const (orderingFor_const (by simp))]
    refine Keyset.walk_of_keyed (clamp_limit_pos limit)
      (passCursor_eq h) pairwise_rowsBy ?_ ?_ ?_ ?_
    · intro x y hxy hyx
      exact absurd hyx (by rw [Std.OrientedCmp.gt_of_lt hxy]; decide)
    · exact pairwise_rowsBy.imp fun hlt hb => budget_before hlt hb
    · intro r hr hrb x hx
      have hrmax : r.budgetMaxCents.isSome = true := by rw [isSome_budgetMaxCents, hrb]
      obtain ⟨a, ha⟩ := Option.isSome_iff_exists.mp hrmax
      rcases hxb : x.budgetMaxCents with _ | b
      · rw [← isSome_budgetMaxCents, hxb]
        change accepts env byBudget (cursorAt env db (instants 0) .budget f r) x = true ↔ _
        rw [accepts_budget, hxb, ha]
        simp
      · have hsame : (accepts env byBudget (cursorAt env db (instants 0) .budget f r) x = true ↔
            byBudget.orderBy r x = .lt) := by
          refine (accepts_budget_iff hmono).mpr fun c hc => ⟨b, hxb, fun hne heq => ?_⟩
          exact absurd (hapart' r hr x hx c hc b hxb heq) hne
        rw [← isSome_budgetMaxCents, hxb]
        simp only [Option.isSome_some, true_and]
        exact hsame
    · rw [← List.countP_eq_length_filter]
      exact hmany

/-- **The list can be walked**, and the walk shows the jobs that it shows at all once. -/
theorem exists_walk (h : env.RoundTrips) (hmono : Monotone env.toFloat8) {raw : RawQuery}
    {query : JobQuery} (hr : resolve env db.vocabulary raw = .ok query)
    (hapart : BudgetsApart env db raw) :
    ∃ S, Keyset.Walk (boardPages env db instants query.filters query.sort query.limit)
        (passCursor env) 0 none S ∧
      S.Perm ((matching env db query.filters).filter (shownInList env db query)) := by
  by_cases hs : query.sort = .budget
  · obtain ⟨S, hw, hS⟩ := @exists_walk_budget env db instants _ h hmono query.limit
      (hapart query hr hs)
    rw [hs]
    refine ⟨S, hw, ?_⟩
    have hshown : shownInList env db query = fun j => j.budget.isSome ||
        decide ((matching env db query.filters).countP (fun x => x.budget.isSome) <
          (clamp query.limit 1 maxPage).toNat) := by
      funext j
      simp [shownInList, hs]
    rw [hS, hshown]
    exact (rowsBy_perm _).filter _
  · have hall : (matching env db query.filters).filter (shownInList env db query) =
        matching env db query.filters := by
      rw [List.filter_eq_self]
      intro j _
      simp [shownInList, hs]
    obtain ⟨q, hparse, rfl⟩ := resolve_eq hr
    have hfit := parseSort_ne_forMe (parse_eq hparse).2.2.1
    rw [hall]
    exact ⟨_, walks_board_iff.mp (walks_of_total h hs (Or.inl hfit)), rowsBy_perm _⟩

/-! ### The map -/

/-- The jobs of the map are those of the query that its text matches. -/
theorem predicate_map (f : Filters) (j : Job) :
    (predicate env { f with queryTradeIds := [] } j).holds =
      ((((isNull f.query).or (test env.textMatches (some j.searchDoc) f.query)).holds) &&
        (predicate env f j).holds) := by
  rw [Bool.eq_iff_iff, Bool.and_eq_true, predicate_holds, predicate_holds, holds_isNull_or_test]
  constructor
  · rintro ⟨hopen, hnear, htrades, hzip, hquery, hrest⟩
    have htext : ∀ q ∈ f.query, env.textMatches j.searchDoc q = true := by
      intro q hq
      rcases hquery q hq with hmatch | ⟨t, -, ht⟩
      · exact hmatch
      · exact absurd ht (by simp)
    exact ⟨fun q hq => ⟨_, rfl, htext q hq⟩, hopen, hnear, htrades, hzip,
      fun q hq => Or.inl (htext q hq), hrest⟩
  · rintro ⟨htext, hopen, hnear, htrades, hzip, -, hrest⟩
    refine ⟨hopen, hnear, htrades, hzip, fun q hq => Or.inl ?_, hrest⟩
    obtain ⟨doc, hdoc, hmatch⟩ := htext q hq
    obtain rfl := Option.some.inj hdoc
    exact hmatch

/-- The jobs the map is about. -/
theorem matching_map {query : JobQuery} :
    matching env db { query.filters with queryTradeIds := [] } =
      (matching env db query.filters).filter (shownOnMap env query) := by
  rw [matching, matching, List.filter_filter]
  refine List.filter_congr fun j _ => ?_
  rw [predicate_map]
  rfl

/-- The map fetches one row more than it shows. -/
theorem mapPoints_eq (f : Filters) :
    mapPoints env db f maxMapPoints =
      (((Sql.orderBy newestFirst ((matching env db f).filter located)).take
          maxMapPoints.toNat).map (jobPoint db),
        decide (maxMapPoints.toNat <
          (Sql.orderBy newestFirst ((matching env db f).filter located)).length)) := by
  have hrows : (db.jobs.filter fun j =>
      ((predicate env f j).and (isNotNull j.publicPoint)).holds) =
        (matching env db f).filter located := by
    rw [matching, List.filter_filter]
    refine List.filter_congr fun j _ => ?_
    rw [Truth.holds_and, holds_isNotNull, Bool.and_comm, located]
  have hlimit : (clamp maxMapPoints 1 maxMapPoints).toNat = maxMapPoints.toNat := by decide
  rw [mapPoints, hrows, hlimit, ← List.map_dropLast, List.length_map]
  have hcap := capped maxMapPoints.toNat
    (Sql.orderBy newestFirst ((matching env db f).filter located))
  split at hcap
  next hlt =>
    rw [if_pos hlt, (Prod.mk.inj hcap).1, ← (Prod.mk.inj hcap).2]
  next hle =>
    rw [if_neg hle, (Prod.mk.inj hcap).1, ← (Prod.mk.inj hcap).2]

/-- The answer of the list to a query string with the cursor of a page. -/
theorem listPage_eq (h : env.RoundTrips) (hempty : env.base64 [] = []) {raw : RawQuery}
    {query : JobQuery} (hr : resolve env db.vocabulary raw = .ok query) (k : ℕ)
    (cursor : Option Cursor) :
    listPage env db instants raw k (cursor.map (encodeCursor env)) =
      ((list env db (instants k) query.filters query.sort query.limit cursor).jobs,
        (list env db (instants k) query.filters query.sort query.limit cursor).nextCursor.map
          (encodeCursor env)) := by
  rw [listPage, listHandler, resolve_cursor h hempty hr]
  rfl

/-- A list of one page. -/
theorem allPages_of_one {raw : RawQuery} (h : (listPage env db instants raw 0 none).2 = none) :
    AllPages env db instants raw (listPage env db instants raw 0 none).1 :=
  .last (Prod.ext rfl h)

/-- A map of another size than the list of one page has located rows. -/
theorem not_listMapAgree {raw : RawQuery} {m : MapResponse} (hm : mapHandler env db raw = .ok m)
    (h : (listPage env db instants raw 0 none).2 = none)
    (hsize : m.points.length ≠ min maxMapPoints.toNat
      ((listPage env db instants raw 0 none).1.filter fun j => j.lat.isSome).length) :
    ¬ListMapAgree env db instants raw := by
  rw [ListMapAgree, hm]
  rintro ⟨xs, hxs, hpoints, -⟩
  obtain rfl := (allPages_of_one h).unique hxs
  rw [hpoints, List.length_map, List.length_take, length_orderBy] at hsize
  exact hsize rfl

/-- All pages of the list, from a walk over rows. -/
theorem allPages_of_walk (h : env.RoundTrips) (hempty : env.base64 [] = []) {raw : RawQuery}
    {query : JobQuery} (hr : resolve env db.vocabulary raw = .ok query) {S : List Job}
    (hw : Keyset.Walk (boardPages env db instants query.filters query.sort query.limit)
      (passCursor env) 0 none S) :
    AllPages env db instants raw (S.map (intoPublic env db query.filters)) := by
  have hlist : Keyset.Walk (fun k c =>
      ((list env db (instants k) query.filters query.sort query.limit c).jobs,
        (list env db (instants k) query.filters query.sort query.limit c).nextCursor))
      (passCursor env) 0 none (S.map (intoPublic env db query.filters)) := by
    have hpages : (fun k c =>
        ((list env db (instants k) query.filters query.sort query.limit c).jobs,
          (list env db (instants k) query.filters query.sort query.limit c).nextCursor)) =
        fun k c => ((boardPages env db instants query.filters query.sort query.limit k c).1.map
            (intoPublic env db query.filters),
          (boardPages env db instants query.filters query.sort query.limit k c).2) := by
      funext k c
      rw [list_eq]
    rw [hpages, Keyset.Walk.map_iff]
    exact ⟨S, hw, rfl⟩
  exact hlist.encode (listPage_eq h hempty hr) (passCursor_eq h)

/-- The located rows of the pages, in the order of the map. -/
theorem orderBy_pages {query : JobQuery} {S : List Job}
    (hS : S.Perm ((matching env db query.filters).filter (shownInList env db query))) :
    Sql.orderBy newestRow
        ((S.map (intoPublic env db query.filters)).filter fun j => j.lat.isSome) =
      ((Sql.orderBy newestFirst ((matching env db query.filters).filter located)).filter
        (shownInList env db query)).map (intoPublic env db query.filters) := by
  have hkey : ∀ a ∈ (matching env db query.filters).filter located,
      ∀ b ∈ (matching env db query.filters).filter located, newestFirst a b = .eq → a = b :=
    fun a ha b hb hab => eq_of_id_eq (mem_jobs (List.mem_of_mem_filter ha))
      (mem_jobs (List.mem_of_mem_filter hb)) (desc_eq_eq.mp (compareLex_eq_eq.mp hab).2)
  have hlocated : ((S.map (intoPublic env db query.filters)).filter fun j => j.lat.isSome) =
      (S.filter located).map (intoPublic env db query.filters) := by
    rw [List.filter_map]
    congr 1
    refine List.filter_congr fun j _ => ?_
    exact Option.isSome_map
  have hperm : (((matching env db query.filters).filter located).filter
      (shownInList env db query)).Perm (S.filter located) := by
    rw [List.filter_comm]
    exact (hS.filter located).symm
  have hkey' : ∀ a ∈ ((matching env db query.filters).filter located).filter
      (shownInList env db query), ∀ b ∈ ((matching env db query.filters).filter located).filter
      (shownInList env db query), newestFirst a b = .eq → a = b := fun a ha b hb hab =>
    hkey a (List.mem_of_mem_filter ha) b (List.mem_of_mem_filter hb) hab
  have hcompare : ∀ a b, newestRow (intoPublic env db query.filters a)
      (intoPublic env db query.filters b) = newestFirst a b := fun _ _ => rfl
  rw [hlocated, orderBy_map hcompare, filter_orderBy hkey (nodup_matching.filter _),
    Sql.orderBy_eq_of_perm hkey' hperm]

/-- **When the list and the map agree.** -/
theorem list_map_agree_iff (h : env.RoundTrips) (hempty : env.base64 [] = [])
    (hmono : Monotone env.toFloat8) (db : Db) (instants : ℕ → Instant) (raw : RawQuery)
    (hapart : BudgetsApart env db raw) :
    ListMapAgree env db instants raw ↔ MapFits env db raw := by
  rw [ListMapAgree, MapFits]
  rcases hr : resolve env db.vocabulary raw with e | query
  · have hparse : parse env raw (rawTradeIds db.vocabulary raw) = .error e := by
      rcases hp : parse env raw (rawTradeIds db.vocabulary raw) with e' | q
      · rw [resolve, hp] at hr
        exact congrArg Except.error (Except.error.inj hr)
      · rw [resolve, hp] at hr
        exact absurd hr (by simp [bind, Except.bind, pure, Except.pure])
    refine iff_of_true ?_ fun query hq => absurd hq (by simp)
    rw [mapHandler, listHandler, hparse, hr]
    rfl
  obtain ⟨S, hw, hS⟩ := @exists_walk env db instants h hmono _ _ hr hapart
  have hall := allPages_of_walk h hempty hr hw
  have hrows := orderBy_pages hS
  obtain ⟨q, hparse, hq⟩ := resolve_eq hr
  have hfilters : q.filters = { query.filters with queryTradeIds := [] } := by
    rw [hq, (parse_eq hparse).2.2.2]
  have hmap : mapHandler env db raw = .ok
      ⟨(mapPoints env db q.filters maxMapPoints).1, (mapPoints env db q.filters maxMapPoints).2,
        maxMapPoints, q.ignored⟩ := by
    rw [mapHandler, hparse]
    rfl
  rw [hmap]
  generalize hR : Sql.orderBy newestFirst ((matching env db query.filters).filter located) = R
    at hrows
  have hnodup : R.Nodup := hR ▸ (orderBy_perm _ _).nodup_iff.mpr (nodup_matching.filter _)
  have hmem : ∀ j ∈ R, j ∈ db.jobs := by
    intro j hj
    rw [← hR, mem_orderBy] at hj
    exact mem_jobs (List.mem_of_mem_filter hj)
  have hpoints : Sql.orderBy newestFirst ((matching env db q.filters).filter located) =
      R.filter (shownOnMap env query) := by
    have hkey : ∀ a ∈ (matching env db query.filters).filter located,
        ∀ b ∈ (matching env db query.filters).filter located, newestFirst a b = .eq → a = b :=
      fun a ha b hb hab => eq_of_id_eq (mem_jobs (List.mem_of_mem_filter ha))
        (mem_jobs (List.mem_of_mem_filter hb)) (desc_eq_eq.mp (compareLex_eq_eq.mp hab).2)
    rw [← hR, filter_orderBy hkey (nodup_matching.filter _), List.filter_comm, hfilters, matching_map]
  have hfits : (∀ query', Except.ok query = (.ok query' : Except AppError JobQuery) →
      let rows := Sql.orderBy newestFirst ((matching env db query'.filters).filter located)
      ∀ l x r, rows = l ++ x :: r → shownOnMap env query' x ≠ shownInList env db query' x →
        maxMapPoints.toNat ≤
            l.countP (fun y => shownOnMap env query' y && shownInList env db query' y) ∧
          maxMapPoints.toNat < rows.countP (shownOnMap env query') ∧
          maxMapPoints.toNat < rows.countP (shownInList env db query')) ↔
      ∀ l x r, R = l ++ x :: r → shownOnMap env query x ≠ shownInList env db query x →
        maxMapPoints.toNat ≤
            l.countP (fun y => shownOnMap env query y && shownInList env db query y) ∧
          maxMapPoints.toNat < R.countP (shownOnMap env query) ∧
          maxMapPoints.toNat < R.countP (shownInList env db query) := by
    constructor
    · intro hall
      simpa only [hR] using hall query rfl
    · intro hfits query' hq'
      obtain rfl := Except.ok.inj hq'
      simpa only [hR] using hfits
  rw [hfits, ← take_filter_eq_iff hnodup maxMapPoints.toNat]
  simp only [mapPoints_eq, hpoints]
  have hpin : ∀ rows : List Job, (rows.map (intoPublic env db query.filters)).map PublicJob.pin =
      rows.map (jobPoint db) := fun rows => List.map_map
  constructor
  · rintro ⟨xs, hxs, hp, ht⟩
    obtain rfl := hall.unique hxs
    rw [hrows, ← List.map_take, hpin] at hp
    rw [hrows, List.length_map, decide_eq_decide] at ht
    refine ⟨Keyset.map_inj_on hp fun a ha b hb hab => ?_, ht⟩
    exact eq_of_id_eq (hmem a (List.mem_of_mem_filter (List.mem_of_mem_take ha)))
      (hmem b (List.mem_of_mem_filter (List.mem_of_mem_take hb))) (congrArg JobPoint.id hab)
  · rintro ⟨hp, ht⟩
    refine ⟨_, hall, ?_, ?_⟩
    · rw [hrows, ← List.map_take, hpin, hp]
    · rw [hrows, List.length_map, decide_eq_decide]
      exact ht

end Marketplace.Board
