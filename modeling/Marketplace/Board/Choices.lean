import Marketplace.Board.Facets

/-!
# Choosing a facet

A facet is handed out to be chosen: with its value in place of the parameter of its dimension,
the query string is to select the jobs that were counted. The number beside a choice is taken
under the filter of its own dimension too, so that a choice narrows and never widens.

The value that is handed out for the jobs without a trade, "other", is the word that a job is
posted with when it is to have none. It is not understood as a filter: no trade has it for a
slug, and a trade filter that no trade answers to is none. `Marketplace.Board.choices_iff`
says that this and the jobs without a budget, in the order by budget, are all that comes
between a choice and its count.
-/

namespace Marketplace.Board

open Search Sql

/-! ### Dimensions -/

/-- What the jobs are broken down by. -/
inductive Dimension
  | trade
  | timeline
  | buildType
  deriving DecidableEq

/-- The choices of a dimension. -/
def Facets.of (facets : Facets) : Dimension → List Facet
  | .trade => facets.trade
  | .timeline => facets.timeline
  | .buildType => facets.buildType

/-- A query string, with a value for the parameter of a dimension. -/
def RawQuery.choose (raw : RawQuery) (d : Dimension) (value : Text) : RawQuery :=
  match d with
  | .trade => { raw with trade := some value }
  | .timeline => { raw with timeline := some value }
  | .buildType => { raw with buildType := some value }

/-- The value that a job has in a dimension, as it is shown. -/
def PublicJob.choice (j : PublicJob) : Dimension → Text
  | .trade => j.trade.getD "other".toList
  | .timeline => j.timeline.asStr.toList
  | .buildType => j.buildType.asStr.toList

variable (env : Search.Env) (db : Db)

/-- The value that a job has in a dimension, as it is stored. -/
def Job.choice (j : Job) : Dimension → Text
  | .trade => (j.tradeSlug db).getD "other".toList
  | .timeline => j.timelineText
  | .buildType => j.buildTypeText

/-- The facets that the list hands out beside its page. -/
def listFacets (raw : RawQuery) : Except AppError Facets := do
  let query ← resolve env db.vocabulary raw
  return facets env db query.filters

/-! ### What is to hold -/

/-- **A choice selects what it counts**: followed to its end, the list shows as many jobs as the
count says, and all of them have the value. -/
def Selects (instants : ℕ → Instant) (raw : RawQuery) (d : Dimension) (e : Facet) : Prop :=
  ∃ xs, AllPages env db instants (raw.choose d e.value) xs ∧ xs.length = e.count ∧
    ∀ p ∈ xs, p.choice d = e.value

/-- **No choice surprises**: each one that the list hands out selects what it counts. -/
def Unsurprising (instants : ℕ → Instant) (raw : RawQuery) : Prop :=
  ∀ fs, listFacets env db raw = .ok fs → ∀ d, ∀ e ∈ fs.of d, Selects env db instants raw d e

/-- **The trades as they are seeded**: an identifier each, slugs of small letters, digits and
dashes, and none that is the word for no trade; a job names one of them or none. -/
structure Seeded : Prop where
  trades_pkey : (db.vocabulary.trades.map Prod.fst).Nodup
  slug_check : ∀ t ∈ db.vocabulary.trades,
    t.2 ≠ [] ∧ ∀ c ∈ t.2, (c.isLower || c.isDigit || c = '-') = true
  not_other : ∀ t ∈ db.vocabulary.trades, t.2 ≠ "other".toList
  trade_fkey : ∀ j ∈ db.jobs, ∀ id ∈ j.tradeId, ∃ slug, (id, slug) ∈ db.vocabulary.trades

/-- The jobs that a choice asks for: those that have the value, and all that match where the value
is no filter. -/
def askedFor (f : Filters) (d : Dimension) (value : Text) : List Job :=
  if d = .trade ∧ value = "other".toList then matching env db f
  else (matching env db f).filter fun j => j.choice db d = value

/-- **When a choice fits its count**: of the jobs it asks for, those with the value are just those
that the list shows. By budget, it does not show those without one when the others fill a
page. -/
def ChoiceFits (query : JobQuery) (d : Dimension) (value : Text) : Prop :=
  let asked := askedFor env db query.filters d value
  ∀ j ∈ asked, j.choice db d = value ↔
    query.sort ≠ .budget ∨ j.budget.isSome = true ∨
      asked.countP (fun j => j.budget.isSome) < (clamp query.limit 1 maxPage).toNat

/-- **When every choice fits**: every value that a matching job has. -/
def ChoicesFit (raw : RawQuery) : Prop :=
  ∀ query, resolve env db.vocabulary raw = .ok query →
    ∀ d, ∀ j ∈ matching env db query.filters, ChoiceFits env db query d (j.choice db d)

variable {env db}

/-! ### Reading a value back -/

/-- A word has nothing to trim. -/
theorem trim_eq_self {s : Text} (h : ∀ c ∈ s, isWhitespace c = false) : trim s = s := by
  have hfront : ∀ t : Text, (∀ c ∈ t, isWhitespace c = false) → t.dropWhile isWhitespace = t := by
    intro t ht
    rcases t with _ | ⟨c, t⟩
    · rfl
    · rw [List.dropWhile_cons_of_neg (by simp [ht c])]
  rw [trim, hfront s h, hfront s.reverse (fun c hc => h c (List.mem_reverse.mp hc)),
    List.reverse_reverse]

/-- The characters of a slug are neither blank nor commas. -/
theorem slugChar {c : Char} (h : (c.isLower || c.isDigit || c = '-') = true) :
    isWhitespace c = false ∧ c ≠ ',' := by
  have hrange : 45 ≤ c.toNat ∧ c.toNat ≤ 122 := by
    simp only [Bool.or_eq_true, decide_eq_true_eq] at h
    rcases h with (h | h) | rfl
    · have hsmall := Ascii.isLower_iff.mp h
      omega
    · have hdigit := Ascii.isDigit_iff.mp h
      omega
    · decide
  constructor
  · exact isWhitespace_of_printed (by omega) (by omega)
  · rintro rfl
    exact absurd hrange.1 (by decide)

/-- A parameter that is one slug. -/
theorem slugs_eq {s : Text} (hne : s ≠ [])
    (h : ∀ c ∈ s, (c.isLower || c.isDigit || c = '-') = true) :
    present (some s) = some s ∧ slugs s = [s] := by
  have htrim : trim s = s := trim_eq_self fun c hc => (slugChar (h c hc)).1
  have hcomma : ',' ∉ s := fun hc => (slugChar (h _ hc)).2 rfl
  refine ⟨?_, ?_⟩
  · simp [present, htrim, hne]
  · simp [slugs, List.splitOn_eq_singleton hcomma, htrim, hne]

/-- The text of a timeline is read back. -/
theorem optional_timeline (name : String) (t : JobTimeline) :
    (optional name (some t.asStr.toList) parseTimeline).1 = some t := by
  rcases t <;> rfl

/-- The text of a build type is read back. -/
theorem optional_buildType (name : String) (b : BuildType) :
    (optional name (some b.asStr.toList) parseBuildType).1 = some b := by
  rcases b <;> rfl

/-! ### The query of a choice -/

/-- The filters of a query string with a choice. -/
def chooseFilters (vocabulary : Vocabulary) (f : Filters) (d : Dimension) (value : Text) : Filters :=
  match d with
  | .trade => { f with tradeIds := boundTrades (rawTradeIds vocabulary { trade := some value }) }
  | .timeline => { f with timeline := (optional "timeline" (some value) parseTimeline).1 }
  | .buildType => { f with buildType := (optional "build_type" (some value) parseBuildType).1 }

/-- A query string whose page size, cursor and sort can be read is answered. -/
theorem parse_of_ok {raw : RawQuery} {limit : ℤ} {cursor : Option Cursor} {sort : SortOrder}
    (hlimit : parseLimit raw = .ok limit) (hcursor : parseCursor env raw = .ok cursor)
    (hsort : parseSort raw (parseNear env raw).1 = .ok sort) (ids : List Uuid) :
    ∃ query, parse env raw ids = .ok query := by
  rw [parse]
  simp only [bind, Except.bind, hlimit, hcursor, hsort, pure, Except.pure]
  exact ⟨_, rfl⟩

/-- **A choice changes one filter** and nothing else of the query. -/
theorem resolve_choose {vocabulary : Vocabulary} {raw : RawQuery} {query : JobQuery}
    (hr : resolve env vocabulary raw = .ok query) (d : Dimension) (value : Text) :
    ∃ query', resolve env vocabulary (raw.choose d value) = .ok query' ∧
      query'.sort = query.sort ∧ query'.limit = query.limit ∧
      query'.filters = chooseFilters vocabulary query.filters d value := by
  obtain ⟨q, hparse, rfl⟩ := resolve_eq hr
  obtain ⟨hlimit, hcursor, hsort, hfilters⟩ := parse_eq hparse
  have hnear : parseNear env (raw.choose d value) = parseNear env raw := by rcases d <;> rfl
  have hlimit' : parseLimit (raw.choose d value) = .ok q.limit := by
    rw [← hlimit]
    rcases d <;> rfl
  have hcursor' : parseCursor env (raw.choose d value) = .ok q.cursor := by
    rw [← hcursor]
    rcases d <;> rfl
  have hsort' : parseSort (raw.choose d value) (parseNear env (raw.choose d value)).1 =
      .ok q.sort := by
    rw [← hsort, hnear]
    rcases d <;> rfl
  obtain ⟨q', hq'⟩ := parse_of_ok hlimit' hcursor' hsort'
    (rawTradeIds vocabulary (raw.choose d value))
  obtain ⟨hl, -, hs, hf⟩ := parse_eq hq'
  refine ⟨{ q' with filters := { q'.filters with
    queryTradeIds := queryTrades env vocabulary q'.filters.query } }, ?_, ?_, ?_, ?_⟩
  · rw [resolve, hq']
    rfl
  · exact Except.ok.inj (hs.symm.trans hsort')
  · exact Except.ok.inj (hl.symm.trans hlimit')
  · simp only [hf, hfilters, chooseFilters, hnear]
    rcases d <;> rfl

/-! ### The jobs of a choice -/

/-- The trade of a slug, by its identifier. -/
theorem slugOf_eq (h : (db.vocabulary.trades.map Prod.fst).Nodup) {id : Uuid} {slug : Text} :
    slugOf db id = some slug ↔ (id, slug) ∈ db.vocabulary.trades := by
  rw [slugOf, Option.map_eq_some_iff]
  constructor
  · rintro ⟨t, ht, rfl⟩
    obtain rfl : t.1 = id := by simpa using List.find?_some ht
    exact List.mem_of_find?_eq_some ht
  · intro hmem
    have hsome : (db.vocabulary.trades.find? fun t => t.1 = id).isSome = true := by
      rw [List.find?_isSome]
      exact ⟨(id, slug), hmem, by simp⟩
    obtain ⟨t, ht⟩ := Option.isSome_iff_exists.mp hsome
    have hid : t.1 = id := by simpa using List.find?_some ht
    obtain rfl := List.inj_on_of_nodup_map h (List.mem_of_find?_eq_some ht) hmem hid
    exact ⟨_, ht, rfl⟩

/-- The slug of a job's trade. -/
theorem tradeSlug_eq (h : (db.vocabulary.trades.map Prod.fst).Nodup) {j : Job} {slug : Text} :
    j.tradeSlug db = some slug ↔ ∃ id ∈ j.tradeId, (id, slug) ∈ db.vocabulary.trades := by
  rw [Job.tradeSlug, Option.bind_eq_some_iff]
  exact exists_congr fun id => and_congr_right fun _ => slugOf_eq h

/-- The check on a slug, as one that is run. -/
theorem slug_of_all {slug : Text}
    (h : (slug.all fun c => c.isLower || c.isDigit || c = '-') = true) :
    ∀ c ∈ slug, (c.isLower || c.isDigit || c = '-') = true :=
  List.all_eq_true.mp h

/-- The trades that a slug stands for. -/
theorem mem_rawTradeIds {vocabulary : Vocabulary} {slug : Text} (hne : slug ≠ [])
    (hslug : ∀ c ∈ slug, (c.isLower || c.isDigit || c = '-') = true) {id : Uuid} :
    id ∈ rawTradeIds vocabulary { trade := some slug } ↔ (id, slug) ∈ vocabulary.trades := by
  obtain ⟨hpresent, hslugs⟩ := slugs_eq hne hslug
  rw [rawTradeIds, hpresent]
  simp only [hslugs, tradeIdsForSlugs, List.mem_singleton, List.mem_map, List.mem_filter,
    decide_eq_true_eq]
  constructor
  · rintro ⟨t, ⟨ht, rfl⟩, rfl⟩
    exact ht
  · exact fun h => ⟨(id, slug), ⟨h, rfl⟩, rfl⟩

/-- **The word for no trade is no filter.** -/
theorem boundTrades_other (h : Seeded db) :
    boundTrades (rawTradeIds db.vocabulary { trade := some "other".toList }) = none := by
  have hnone : rawTradeIds db.vocabulary { trade := some "other".toList } = [] := by
    rw [List.eq_nil_iff_forall_not_mem]
    intro id hid
    exact h.not_other _ ((mem_rawTradeIds (by decide) (slug_of_all (by decide))).mp hid) rfl
  rw [hnone]
  rfl

/-- A matching job, conjunct by conjunct. -/
theorem mem_matching {f : Filters} {j : Job} :
    j ∈ matching env db f ↔ j ∈ db.jobs ∧ (predicate env f j).holds = true := List.mem_filter

/-- A job whose shown trade is a slug has that trade. -/
theorem choice_trade {j : Job} {value : Text} (hne : value ≠ "other".toList) :
    j.choice db .trade = value ↔ j.tradeSlug db = some value := by
  change (j.tradeSlug db).getD _ = value ↔ _
  rcases j.tradeSlug db with _ | slug
  · simp only [Option.getD_none, reduceCtorEq, iff_false]
    exact fun heq => hne heq.symm
  · simp

/-- A job whose shown trade is the word for no trade has none. -/
theorem tradeId_of_other (h : Seeded db) {j : Job} (hj : j ∈ db.jobs)
    (hother : j.choice db .trade = "other".toList) : j.tradeId = none := by
  rcases hid : j.tradeId with _ | id
  · rfl
  · obtain ⟨slug, hslug⟩ := h.trade_fkey j hj id hid
    have hshown : j.tradeSlug db = some slug := (tradeSlug_eq h.trades_pkey).mpr ⟨id, hid, hslug⟩
    have heq : (j.tradeSlug db).getD "other".toList = "other".toList := hother
    rw [hshown] at heq
    exact absurd heq (h.not_other _ hslug)

/-- The filter of a query string's trades: with a trade of some slug, all of that slug. -/
theorem closed_of_resolve (h : Seeded db) {raw : RawQuery} {query : JobQuery}
    (hr : resolve env db.vocabulary raw = .ok query) {ids : List Uuid}
    (hids : query.filters.tradeIds = some ids) {id id' : Uuid} {slug : Text}
    (hid : (id, slug) ∈ db.vocabulary.trades) (hin : id ∈ ids)
    (hid' : (id', slug) ∈ db.vocabulary.trades) : id' ∈ ids := by
  obtain ⟨q, hparse, rfl⟩ := resolve_eq hr
  have hbound : boundTrades (rawTradeIds db.vocabulary raw) = some ids := by
    rw [← hids, (parse_eq hparse).2.2.2]
  have hraw : rawTradeIds db.vocabulary raw = ids := by
    rw [boundTrades] at hbound
    split at hbound
    · exact absurd hbound (by simp)
    · exact Option.some.inj hbound
  rw [← hraw, rawTradeIds] at hin ⊢
  rcases hp : present raw.trade with _ | value
  · rw [hp] at hin
    exact absurd hin List.not_mem_nil
  · rw [hp] at hin
    simp only [tradeIdsForSlugs, List.mem_map, List.mem_filter, decide_eq_true_eq] at hin ⊢
    obtain ⟨t, ⟨ht, hslug⟩, rfl⟩ := hin
    have heq : t = (t.1, slug) := List.inj_on_of_nodup_map h.trades_pkey ht hid rfl
    have hsame : t.2 = slug := congrArg Prod.snd heq
    exact ⟨(id', slug), ⟨hid', hsame ▸ hslug⟩, rfl⟩

variable {raw : RawQuery} {query : JobQuery} {j₀ : Job}

/-- **With the slug of a matching job for a trade**, the jobs of that trade are asked for. -/
theorem matching_slug (h : Seeded db) (hr : resolve env db.vocabulary raw = .ok query)
    {slug : Text} (hj₀ : j₀ ∈ matching env db query.filters)
    (hslug : j₀.tradeSlug db = some slug) :
    matching env db (chooseFilters db.vocabulary query.filters .trade slug) =
      (matching env db query.filters).filter fun j => j.choice db .trade = slug := by
  obtain ⟨id₀, hid₀, hrow₀⟩ := (tradeSlug_eq h.trades_pkey).mp hslug
  obtain ⟨hne, hchars⟩ := h.slug_check _ hrow₀
  have hmem := fun id => @mem_rawTradeIds db.vocabulary slug hne hchars id
  have hbound : boundTrades (rawTradeIds db.vocabulary { trade := some slug }) =
      some (rawTradeIds db.vocabulary { trade := some slug }) := by
    have hin := (hmem id₀).mpr hrow₀
    rw [boundTrades, if_neg]
    intro hempty
    rw [List.isEmpty_iff.mp hempty] at hin
    exact absurd hin List.not_mem_nil
  have hmatch₀ := (predicate_holds env).mp (mem_matching.mp hj₀).2
  rw [matching, matching, List.filter_filter]
  refine List.filter_congr fun j hj => ?_
  rw [Bool.eq_iff_iff, Bool.and_eq_true, decide_eq_true_eq, choice_trade (h.not_other _ hrow₀),
    predicate_holds, predicate_holds, tradeSlug_eq h.trades_pkey]
  simp only [chooseFilters, hbound]
  constructor
  · rintro ⟨hopen, hnear, htrade, hrest⟩
    obtain ⟨id, hid, hin⟩ := htrade _ rfl
    have hrow := (hmem id).mp hin
    refine ⟨⟨id, hid, hrow⟩, hopen, hnear, fun ids hids => ⟨id, hid, ?_⟩, hrest⟩
    obtain ⟨id', hid', hin'⟩ := hmatch₀.2.2.1 ids hids
    obtain rfl := Option.mem_unique hid₀ hid'
    exact closed_of_resolve h hr hids hrow₀ hin' hrow
  · rintro ⟨⟨id, hid, hrow⟩, hopen, hnear, -, hrest⟩
    refine ⟨hopen, hnear, fun ids hids => ⟨id, hid, ?_⟩, hrest⟩
    obtain rfl := Option.some.inj hids
    exact (hmem id).mpr hrow

/-- Timelines of one text are one. -/
theorem timelineText_inj {j j' : Job} : j.timelineText = j'.timelineText ↔ j.timeline = j'.timeline := by
  rw [Job.timelineText, Job.timelineText]
  rcases j.timeline <;> rcases j'.timeline <;> decide

/-- Build types of one text are one. -/
theorem buildTypeText_inj {j j' : Job} :
    j.buildTypeText = j'.buildTypeText ↔ j.buildType = j'.buildType := by
  rw [Job.buildTypeText, Job.buildTypeText]
  rcases j.buildType <;> rcases j'.buildType <;> decide

/-- **What a choice asks for**, where a matching job has the value. -/
theorem matching_choose (h : Seeded db) (hr : resolve env db.vocabulary raw = .ok query)
    (hj₀ : j₀ ∈ matching env db query.filters) (d : Dimension) :
    matching env db (chooseFilters db.vocabulary query.filters d (j₀.choice db d)) =
      askedFor env db query.filters d (j₀.choice db d) := by
  have hmatch₀ := (predicate_holds env).mp (mem_matching.mp hj₀).2
  rcases d with _ | _ | _
  · by_cases hother : j₀.choice db .trade = "other".toList
    · -- the filter is none, as it was before
      have hnone := tradeId_of_other h (mem_matching.mp hj₀).1 hother
      have hfilter : query.filters.tradeIds = none := by
        rcases hids : query.filters.tradeIds with _ | ids
        · rfl
        · obtain ⟨id, hid, -⟩ := hmatch₀.2.2.1 ids hids
          rw [hnone] at hid
          exact absurd hid (by simp)
      have hsame : chooseFilters db.vocabulary query.filters .trade "other".toList =
          query.filters := by
        rw [chooseFilters, boundTrades_other h, ← hfilter]
      rw [askedFor, if_pos ⟨rfl, hother⟩, hother, hsame]
    · rw [askedFor, if_neg fun hboth => hother hboth.2]
      exact matching_slug h hr hj₀ ((choice_trade hother).mp rfl)
  · rw [askedFor, if_neg (by simp), matching, matching, List.filter_filter]
    refine List.filter_congr fun j _ => ?_
    have hvalue : j.choice db .timeline = j₀.choice db .timeline ↔ j.timeline = j₀.timeline :=
      timelineText_inj
    have hread : (optional "timeline" (some (j₀.choice db .timeline)) parseTimeline).1 =
        some j₀.timeline := optional_timeline _ _
    rw [Bool.eq_iff_iff, Bool.and_eq_true, decide_eq_true_eq, predicate_holds, predicate_holds,
      hvalue]
    simp only [chooseFilters, hread, Option.mem_def, Option.some.injEq, forall_eq']
    constructor
    · rintro ⟨hopen, hnear, htrade, hzip, hquery, htimeline, hrest⟩
      refine ⟨htimeline, hopen, hnear, htrade, hzip, hquery, fun t ht => ?_, hrest⟩
      exact htimeline.trans (hmatch₀.2.2.2.2.2.1 t ht)
    · rintro ⟨htimeline, hopen, hnear, htrade, hzip, hquery, -, hrest⟩
      exact ⟨hopen, hnear, htrade, hzip, hquery, htimeline, hrest⟩
  · rw [askedFor, if_neg (by simp), matching, matching, List.filter_filter]
    refine List.filter_congr fun j _ => ?_
    have hvalue : j.choice db .buildType = j₀.choice db .buildType ↔ j.buildType = j₀.buildType :=
      buildTypeText_inj
    have hread : (optional "build_type" (some (j₀.choice db .buildType)) parseBuildType).1 =
        some j₀.buildType := optional_buildType _ _
    rw [Bool.eq_iff_iff, Bool.and_eq_true, decide_eq_true_eq, predicate_holds, predicate_holds,
      hvalue]
    simp only [chooseFilters, hread, Option.mem_def, Option.some.injEq, forall_eq']
    constructor
    · rintro ⟨hopen, hnear, htrade, hzip, hquery, htimeline, hbuild, hbudget⟩
      refine ⟨hbuild, hopen, hnear, htrade, hzip, hquery, htimeline, fun b hb => ?_, hbudget⟩
      exact hbuild.trans (hmatch₀.2.2.2.2.2.2.1 b hb)
    · rintro ⟨hbuild, hopen, hnear, htrade, hzip, hquery, htimeline, -, hbudget⟩
      exact ⟨hopen, hnear, htrade, hzip, hquery, htimeline, hbuild, hbudget⟩

/-! ### When a choice surprises -/

/-- No job's trade has the word for no trade for its slug. -/
theorem tradeSlug_ne_other (h : Seeded db) (j : Job) : j.tradeSlug db ≠ some "other".toList := by
  intro heq
  obtain ⟨id, -, hrow⟩ := (tradeSlug_eq h.trades_pkey).mp heq
  exact h.not_other _ hrow rfl

/-- Jobs of one shown trade are of one trade, or of none. -/
theorem choice_trade_iff (h : Seeded db) (j j' : Job) :
    j.choice db .trade = j'.choice db .trade ↔ j.tradeSlug db = j'.tradeSlug db := by
  have hne := tradeSlug_ne_other h j
  have hne' := tradeSlug_ne_other h j'
  change (j.tradeSlug db).getD _ = (j'.tradeSlug db).getD _ ↔ _
  generalize j.tradeSlug db = s at *
  generalize j'.tradeSlug db = s' at *
  rcases s with _ | slug <;> rcases s' with _ | slug'
  · simp
  · simp only [Option.getD_none, Option.getD_some, reduceCtorEq, iff_false]
    exact fun heq => hne' (congrArg some heq.symm)
  · simp only [Option.getD_none, Option.getD_some, reduceCtorEq, iff_false]
    exact fun heq => hne (congrArg some heq)
  · simp

/-- The choices of one dimension, from its groups. -/
theorem mem_sorted {κ : Type} [DecidableEq κ] (key : Job → κ) (value : κ → Text)
    {label : κ × ℕ → Facet} (hlabel : ∀ g, label g = ⟨value g.1, g.2⟩) {rows : List Job}
    (hvalue : ∀ j j', value (key j) = value (key j') ↔ key j = key j') {e : Facet} :
    e ∈ Sql.orderBy largestFirst ((groupBy key rows).map label) ↔
      (∃ j ∈ rows, value (key j) = e.value) ∧
        e.count = rows.countP fun j => value (key j) = e.value := by
  rw [mem_orderBy, List.mem_map]
  have hcount : ∀ j₀, (rows.countP fun j => value (key j) = value (key j₀)) =
      rows.countP fun j => key j = key j₀ := fun j₀ =>
    List.countP_congr fun j _ => by simp [hvalue]
  constructor
  · rintro ⟨g, hg, rfl⟩
    obtain ⟨⟨j₀, hj₀, hkey⟩, hn⟩ := mem_groupBy.mp hg
    rw [hlabel, ← hkey, hcount]
    exact ⟨⟨j₀, hj₀, rfl⟩, hkey ▸ hn⟩
  · rintro ⟨⟨j₀, hj₀, hvalue₀⟩, hn⟩
    rw [← hvalue₀, hcount] at hn
    refine ⟨(key j₀, e.count), mem_groupBy.mpr ⟨⟨j₀, hj₀, rfl⟩, hn⟩, ?_⟩
    rw [hlabel, hvalue₀]

/-- **The choices that are handed out** are the values of the matching jobs, with their number. -/
theorem mem_of (h : Seeded db) {f : Filters} (d : Dimension) {e : Facet} :
    e ∈ (facets env db f).of d ↔ (∃ j ∈ matching env db f, j.choice db d = e.value) ∧
      e.count = (matching env db f).countP fun j => j.choice db d = e.value := by
  rw [facets_eq]
  rcases d with _ | _ | _
  · exact mem_sorted (Job.tradeSlug db) (fun g => g.getD "other".toList) (fun _ => rfl)
      (choice_trade_iff h)
  · exact mem_sorted _ id (fun _ => rfl) fun _ _ => Iff.rfl
  · exact mem_sorted _ id (fun _ => rfl) fun _ _ => Iff.rfl

/-- As many of the jobs asked for have the value as of those that match. -/
theorem countP_askedFor (f : Filters) (d : Dimension) (value : Text) :
    (askedFor env db f d value).countP (fun j => j.choice db d = value) =
      (matching env db f).countP fun j => j.choice db d = value := by
  rw [askedFor]
  split
  · rfl
  · rw [List.countP_filter]
    simp

/-- Two parts of a list, of which one is in the other and as large, are the same. -/
theorem forall_iff_of_countP {rows : List Job} {p q : Job → Bool} :
    (rows.filter p).length = rows.countP q ∧ (∀ j ∈ rows.filter p, q j = true) ↔
      ∀ j ∈ rows, q j = true ↔ p j = true := by
  constructor
  · rintro ⟨hlen, hin⟩ j hj
    have hsame : (rows.filter q).filter p = rows.filter p := by
      rw [List.filter_comm, List.filter_eq_self]
      exact hin
    have hall := List.length_filter_eq_length_iff.mp
      ((congrArg List.length hsame).trans (hlen.trans List.countP_eq_length_filter))
    exact ⟨fun hq => hall j (List.mem_filter.mpr ⟨hj, hq⟩),
      fun hp => hin j (List.mem_filter.mpr ⟨hj, hp⟩)⟩
  · intro hall
    refine ⟨?_, fun j hj => ?_⟩
    · rw [← List.countP_eq_length_filter]
      exact List.countP_congr fun j hj => (hall j hj).symm
    · obtain ⟨hmem, hp⟩ := List.mem_filter.mp hj
      exact (hall j hmem).mpr hp

/-- **One choice.** -/
theorem selects_iff (h : env.RoundTrips) (hempty : env.base64 [] = [])
    (hmono : Monotone env.toFloat8) (hseed : Seeded db) (instants : ℕ → Instant)
    (hapart : DoublesApart env db.jobs) (hr : resolve env db.vocabulary raw = .ok query)
    {d : Dimension} {e : Facet} (he : e ∈ (facets env db query.filters).of d) :
    Selects env db instants raw d e ↔ ChoiceFits env db query d e.value := by
  obtain ⟨⟨j₀, hj₀, hvalue₀⟩, hcount⟩ := (mem_of hseed d).mp he
  obtain ⟨query', hr', hsort, hlimit, hfilters⟩ := resolve_choose hr d e.value
  have hasked : matching env db query'.filters = askedFor env db query.filters d e.value := by
    rw [hfilters, ← hvalue₀]
    exact matching_choose hseed hr hj₀ d
  have hapart' : BudgetsApart env db (raw.choose d e.value) := by
    intro query'' hr'' _ x hx y hy
    exact hapart x (mem_jobs hx) y (mem_jobs hy)
  obtain ⟨S, hw, hS⟩ := @exists_walk env db instants h hmono _ _ hr' hapart'
  have hall := allPages_of_walk h hempty hr' hw
  have hshown : ∀ j, shownInList env db query' j = true ↔
      query.sort ≠ .budget ∨ j.budget.isSome = true ∨
        (askedFor env db query.filters d e.value).countP (fun j => j.budget.isSome) <
          (clamp query.limit 1 maxPage).toNat := by
    intro j
    rw [← hasked, ← hsort, ← hlimit]
    exact shownInList_iff
  have hselects : Selects env db instants raw d e ↔
      (S.map (intoPublic env db query'.filters)).length = e.count ∧
        ∀ p ∈ S.map (intoPublic env db query'.filters), p.choice d = e.value := by
    constructor
    · rintro ⟨xs, hxs, hlen, hhave⟩
      obtain rfl := hall.unique hxs
      exact ⟨hlen, hhave⟩
    · rintro ⟨hlen, hhave⟩
      exact ⟨_, hall, hlen, hhave⟩
  have hchoice : ∀ j, (intoPublic env db query'.filters j).choice d = j.choice db d := by
    intro j
    rcases d <;> rfl
  have hvalues : (∀ p ∈ S.map (intoPublic env db query'.filters), p.choice d = e.value) ↔
      ∀ j ∈ (askedFor env db query.filters d e.value).filter (shownInList env db query'),
        decide (j.choice db d = e.value) = true := by
    simp only [List.forall_mem_map, hchoice, decide_eq_true_eq, ← hasked]
    exact forall_congr' fun j => imp_congr_left hS.mem_iff
  rw [hselects, List.length_map, hS.length_eq, hcount, ← countP_askedFor, hvalues, hasked,
    forall_iff_of_countP, ChoiceFits]
  refine forall₂_congr fun j _ => ?_
  rw [hshown j, decide_eq_true_eq]

/-- **When no choice surprises**: when the choices fit. -/
theorem choices_iff (h : env.RoundTrips) (hempty : env.base64 [] = [])
    (hmono : Monotone env.toFloat8) (db : Db) (hseed : Seeded db) (instants : ℕ → Instant)
    (raw : RawQuery) (hapart : DoublesApart env db.jobs) :
    Unsurprising env db instants raw ↔ ChoicesFit env db raw := by
  rw [Unsurprising, ChoicesFit, listFacets]
  rcases hr : resolve env db.vocabulary raw with err | query
  · refine iff_of_true (fun fs hfs => ?_) fun query hq => ?_
    · exact absurd hfs (by simp [bind, Except.bind])
    · exact absurd hq (by simp)
  have hchoices : (∀ d, ∀ e ∈ (facets env db query.filters).of d, Selects env db instants raw d e) ↔
      ∀ d, ∀ j ∈ matching env db query.filters, ChoiceFits env db query d (j.choice db d) := by
    refine forall_congr' fun d => ?_
    constructor
    · intro hall j hj
      have he : (⟨j.choice db d, (matching env db query.filters).countP fun j' =>
          j'.choice db d = j.choice db d⟩ : Facet) ∈ (facets env db query.filters).of d :=
        (mem_of hseed d).mpr ⟨⟨j, hj, rfl⟩, rfl⟩
      exact (selects_iff h hempty hmono hseed instants hapart hr he).mp (hall _ he)
    · intro hall e he
      obtain ⟨⟨j, hj, hvalue⟩, -⟩ := (mem_of hseed d).mp he
      exact (selects_iff h hempty hmono hseed instants hapart hr he).mpr (hvalue ▸ hall j hj)
  constructor
  · intro hall query' hq'
    obtain rfl := Except.ok.inj hq'
    exact hchoices.mp (hall _ rfl)
  · intro hall fs hfs
    obtain rfl := Except.ok.inj hfs
    exact hchoices.mpr (hall query rfl)

instance (env : Search.Env) (db : Db) (query : JobQuery) (d : Dimension) (value : Text) :
    Decidable (ChoiceFits env db query d value) :=
  inferInstanceAs (Decidable (∀ j ∈ askedFor env db query.filters d value, _ ↔ _))

/-! ### Two jobs, one without a trade -/

/-- Two jobs under one trade, or one of them under none. -/
def tradedJobs (second : Option Uuid) : Db where
  jobs := [postedJob 1 none 10, { postedJob 2 none 20 with tradeId := second }]
  conversations := []
  vocabulary := ⟨[(36, "plumbing".toList)], []⟩
  displayName := fun _ => some "Maria Lopez".toList
  jobs_nodup := by simp [postedJob]

/-- Both jobs name a trade that is seeded. -/
theorem seeded_tradedJobs : Seeded (tradedJobs (some 36)) where
  trades_pkey := by decide
  slug_check := fun t ht => by
    rw [List.mem_singleton.mp ht]
    exact ⟨by decide, slug_of_all (by decide)⟩
  not_other := by decide
  trade_fkey := by
    intro j hj id hid
    refine ⟨"plumbing".toList, ?_⟩
    rcases List.mem_pair.mp hj with rfl | rfl
    · exact Option.some.inj hid ▸ List.mem_singleton_self _
    · exact Option.some.inj hid ▸ List.mem_singleton_self _

/-- With a trade for every job, no choice surprises. -/
theorem choices_iff_traded :
    Unsurprising Search.Env.plain (tradedJobs (some 36)) (fun _ => 100) {} := by
  refine (choices_iff Search.Env.plain_roundTrips rfl monotone_id _ seeded_tradedJobs _ {}
    fun x _ y _ a _ b _ heq => Nat.cast_injective heq).mpr ?_
  intro query hq d j hj
  obtain rfl : (⟨.newest, {}, defaultPage, none, []⟩ : JobQuery) = query := Except.ok.inj hq
  have hrows : matching Search.Env.plain (tradedJobs (some 36)) {} = (tradedJobs (some 36)).jobs := by
    decide +kernel
  rw [hrows] at hj
  rcases List.mem_pair.mp hj with rfl | rfl
  · rcases d with _ | _ | _ <;> decide +kernel
  · rcases d with _ | _ | _ <;> decide +kernel

/-- **A choice that surprises**: of two jobs one has no trade, and is counted under "other"; chosen,
it shows both. -/
theorem choices_other :
    (⟨"other".toList, 1⟩ : Facet) ∈ (facets Search.Env.plain (tradedJobs none) {}).trade ∧
      (listPage Search.Env.plain (tradedJobs none) (fun _ => 100) { trade := some "other".toList }
        0 none).1.length = 2 ∧
      ¬ Unsurprising Search.Env.plain (tradedJobs none) (fun _ => 100) {} := by
  have hcounted : (⟨"other".toList, 1⟩ : Facet) ∈
      (facets Search.Env.plain (tradedJobs none) {}).trade := by decide +kernel
  have hshown : (listPage Search.Env.plain (tradedJobs none) (fun _ => 100)
      { trade := some "other".toList } 0 none).1.length = 2 := by decide +kernel
  refine ⟨hcounted, hshown, fun h => ?_⟩
  obtain ⟨xs, hxs, hlen, -⟩ := h _ rfl .trade ⟨"other".toList, 1⟩ hcounted
  have hone : AllPages Search.Env.plain (tradedJobs none) (fun _ => 100)
      { trade := some "other".toList } _ := allPages_of_one (by decide +kernel)
  rw [hxs.unique hone, hshown] at hlen
  exact absurd hlen (by decide)

end Marketplace.Board
