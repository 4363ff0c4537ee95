import Marketplace.Board.Map
import Marketplace.Sql.GroupBy
import Mathlib.Data.Char
import Mathlib.Data.List.Lex

/-!
# The facets of the board

Beside a page of jobs the list hands out how many jobs match and how they break down by trade,
by timeline and by build type. The four counts come from one query over grouping sets, whose
rows say by flags which set they belong to: a job without a trade is counted in a row whose
slug is `NULL`, just as the slug of the grand total is.

`Marketplace.Board.facets_eq` is what the rows come to. The counts are those of the rows that
match (`Marketplace.Board.Conserved`); the list that stands beside them shows fewer in the order
by budget, as `Marketplace.Board.facets_conserved_iff` says.
-/

namespace Marketplace.Board

open Search Sql

variable (env : Search.Env) (db : Db)

/-! ### The query -/

/-- A choice, and how many jobs it would leave. -/
structure Facet where
  value : Text
  count : ℕ
  deriving DecidableEq

/-- **The counts that stand beside a page.** -/
structure Facets where
  total : ℕ := 0
  trade : List Facet := []
  timeline : List Facet := []
  buildType : List Facet := []
  deriving DecidableEq

/-- A row of the query: a grouping flag for each column, `0` where the column is part of the
row's set, the columns, and the count. -/
structure GroupingRow where
  gTrade : ℕ
  gTimeline : ℕ
  gBuild : ℕ
  trade : Option Text
  timeline : Option Text
  buildType : Option Text
  n : ℕ
  deriving DecidableEq

/-- The slug of a job's trade, `NULL` where it has none. -/
def Job.tradeSlug (j : Job) : Option Text := j.tradeId.bind (slugOf db)

/-- The text of a job's timeline. -/
def Job.timelineText (j : Job) : Text := j.timeline.asStr.toList

/-- The text of a job's build type. -/
def Job.buildTypeText (j : Job) : Text := j.buildType.asStr.toList

/-- `GROUP BY GROUPING SETS ((t.slug), (j.timeline), (j.build_type), ())`. -/
def groupingRows (f : Filters) : List GroupingRow :=
  let rows := matching env db f
  (groupBy (Job.tradeSlug db) rows).map (fun g => ⟨0, 1, 1, g.1, none, none, g.2⟩) ++
    (groupBy Job.timelineText rows).map (fun g => ⟨1, 0, 1, none, some g.1, none, g.2⟩) ++
    (groupBy Job.buildTypeText rows).map (fun g => ⟨1, 1, 0, none, none, some g.1, g.2⟩) ++
    [⟨1, 1, 1, none, none, none, rows.length⟩]

/-- One row, told apart by its flags. -/
def Facets.push (facets : Facets) (r : GroupingRow) : Facets :=
  match r.gTrade, r.gTimeline, r.gBuild with
  | 0, _, _ =>
    -- a job posted as "Other / not listed" has no slug
    { facets with trade := facets.trade ++ [⟨r.trade.getD "other".toList, r.n⟩] }
  | _, 0, _ =>
    match r.timeline with
    | some value => { facets with timeline := facets.timeline ++ [⟨value, r.n⟩] }
    | none => facets
  | _, _, 0 =>
    match r.buildType with
    | some value => { facets with buildType := facets.buildType ++ [⟨value, r.n⟩] }
    | none => facets
  | _, _, _ => { facets with total := r.n }

/-- The order of the choices: the larger first, then by their text. -/
def largestFirst : Facet → Facet → Ordering := compareLex (desc Facet.count) (asc Facet.value)

/-- The three lists, each in order. -/
def Facets.sorted (facets : Facets) : Facets :=
  { facets with
    trade := Sql.orderBy largestFirst facets.trade
    timeline := Sql.orderBy largestFirst facets.timeline
    buildType := Sql.orderBy largestFirst facets.buildType }

/-- The facets that some rows come to. -/
def facetsFrom (rows : List GroupingRow) : Facets := (rows.foldl Facets.push {}).sorted

/-- **`facets`**: the counts under the predicate of the list. -/
def facets (f : Filters) : Facets := facetsFrom (groupingRows env db f)

/-! ### What the rows come to -/

/-- What a row adds to the trades. -/
def GroupingRow.tradeFacet (r : GroupingRow) : Option Facet :=
  if r.gTrade = 0 then some ⟨r.trade.getD "other".toList, r.n⟩ else none

/-- What a row adds to the timelines. -/
def GroupingRow.timelineFacet (r : GroupingRow) : Option Facet :=
  if r.gTrade ≠ 0 ∧ r.gTimeline = 0 then r.timeline.map fun value => ⟨value, r.n⟩ else none

/-- What a row adds to the build types. -/
def GroupingRow.buildTypeFacet (r : GroupingRow) : Option Facet :=
  if r.gTrade ≠ 0 ∧ r.gTimeline ≠ 0 ∧ r.gBuild = 0 then r.buildType.map fun value => ⟨value, r.n⟩
  else none

theorem push_trade (facets : Facets) (r : GroupingRow) :
    (facets.push r).trade = facets.trade ++ r.tradeFacet.toList := by
  rcases r with ⟨_ | _, _ | _, _ | _, _, _ | _, _ | _, _⟩ <;> simp [Facets.push, GroupingRow.tradeFacet]

theorem push_timeline (facets : Facets) (r : GroupingRow) :
    (facets.push r).timeline = facets.timeline ++ r.timelineFacet.toList := by
  rcases r with ⟨_ | _, _ | _, _ | _, _, _ | _, _ | _, _⟩ <;>
    simp [Facets.push, GroupingRow.timelineFacet]

theorem push_buildType (facets : Facets) (r : GroupingRow) :
    (facets.push r).buildType = facets.buildType ++ r.buildTypeFacet.toList := by
  rcases r with ⟨_ | _, _ | _, _ | _, _, _ | _, _ | _, _⟩ <;>
    simp [Facets.push, GroupingRow.buildTypeFacet]

/-- The choice of a group of trades: a job without a trade is "other". -/
def tradeLabel (g : Option Text × ℕ) : Facet := ⟨g.1.getD "other".toList, g.2⟩

/-- The choice of a group of timelines, or of build types. -/
def textLabel (g : Text × ℕ) : Facet := ⟨g.1, g.2⟩

variable {env db} {f : Filters}

/-- **The facets, dimension by dimension.** -/
theorem facets_eq :
    facets env db f =
      { total := (matching env db f).length
        trade := Sql.orderBy largestFirst
          ((groupBy (Job.tradeSlug db) (matching env db f)).map tradeLabel)
        timeline := Sql.orderBy largestFirst
          ((groupBy Job.timelineText (matching env db f)).map textLabel)
        buildType := Sql.orderBy largestFirst
          ((groupBy Job.buildTypeText (matching env db f)).map textLabel) } := by
  have htotal : ((groupingRows env db f).foldl Facets.push {}).total =
      (matching env db f).length := by
    rw [groupingRows, List.foldl_append]
    rfl
  have htrade := foldl_collect push_trade {} (groupingRows env db f)
  have htimeline := foldl_collect push_timeline {} (groupingRows env db f)
  have hbuildType := foldl_collect push_buildType {} (groupingRows env db f)
  rw [facets, facetsFrom, Facets.sorted, htotal, htrade, htimeline, hbuildType]
  simp [groupingRows, List.filterMap_append, List.filterMap_map, Function.comp_def,
    GroupingRow.tradeFacet, GroupingRow.timelineFacet, GroupingRow.buildTypeFacet]
  exact ⟨rfl, rfl, rfl⟩

instance transCmp_largestFirst : Std.TransCmp largestFirst :=
  inferInstanceAs (Std.TransCmp (compareLex _ _))

/-- Choices that are level in the order are the same. -/
theorem eq_of_largestFirst {a b : Facet} (h : largestFirst a b = .eq) : a = b := by
  obtain ⟨hcount, hvalue⟩ := compareLex_eq_eq.mp h
  rcases a with ⟨value, count⟩
  rcases b with ⟨value', count'⟩
  obtain rfl : count = count' := desc_eq_eq.mp hcount
  obtain rfl : value = value' := asc_eq_eq.mp hvalue
  rfl

/-- What a row sets the total to. -/
def GroupingRow.total (r : GroupingRow) : Option ℕ :=
  if r.gTrade ≠ 0 ∧ r.gTimeline ≠ 0 ∧ r.gBuild ≠ 0 then some r.n else none

theorem push_total (facets : Facets) (r : GroupingRow) :
    (facets.push r).total = r.total.getD facets.total := by
  rcases r with ⟨_ | _, _ | _, _ | _, _, _ | _, _ | _, _⟩ <;> simp [Facets.push, GroupingRow.total]

/-- The total is the last one set. -/
theorem foldl_total (facets : Facets) (rows : List GroupingRow) :
    (rows.foldl Facets.push facets).total = ((rows.filterMap GroupingRow.total).getLast?).getD
      facets.total := by
  induction rows using List.reverseRecOn with
  | nil => rfl
  | append_singleton rows r ih =>
    rw [List.foldl_append, List.foldl_cons, List.foldl_nil, push_total, ih, List.filterMap_append,
      List.filterMap_cons]
    rcases r.total with _ | n <;> simp

/-- **The rows of the query may come in any order.** -/
theorem facetsFrom_perm {rows : List GroupingRow} (h : rows.Perm (groupingRows env db f)) :
    facetsFrom rows = facets env db f := by
  have hsame : ∀ found : GroupingRow → Option Facet,
      Sql.orderBy largestFirst (rows.filterMap found) =
        Sql.orderBy largestFirst ((groupingRows env db f).filterMap found) := fun found =>
    Sql.orderBy_eq_of_perm (fun _ _ _ _ => eq_of_largestFirst) (h.filterMap found)
  have htotal : (groupingRows env db f).filterMap GroupingRow.total =
      [(matching env db f).length] := by
    simp [groupingRows, List.filterMap_append, List.filterMap_map, Function.comp_def,
      GroupingRow.total]
  have hone : rows.filterMap GroupingRow.total = [(matching env db f).length] :=
    List.perm_singleton.mp (htotal ▸ h.filterMap GroupingRow.total)
  rw [facets, facetsFrom, facetsFrom, Facets.sorted, Facets.sorted, foldl_total, foldl_total, hone,
    htotal, foldl_collect push_trade {} rows, foldl_collect push_trade {} (groupingRows env db f),
    foldl_collect push_timeline {} rows, foldl_collect push_timeline {} (groupingRows env db f),
    foldl_collect push_buildType {} rows, foldl_collect push_buildType {} (groupingRows env db f)]
  simp only [List.nil_append, hsame]

/-! ### The counts, beside the list -/

section Conserved

variable (env) (db)

/-- A query for the rows of some filters, from the first page on. -/
def queryOf (f : Filters) (sort : SortOrder) (limit : ℤ) : JobQuery := ⟨sort, f, limit, none, []⟩

/-- **The counts are conserved**: the total is the number of rows on all pages of the list, and in
each dimension there is one choice for every group of matching jobs, with their number, which
add up to the total. -/
structure Conserved (now : Instant) (f : Filters) (sort : SortOrder) (limit : ℤ) : Prop where
  total : ∃ xs, Walks env db (fun _ => now) f sort limit xs ∧ (facets env db f).total = xs.length
  trade : Groups (Job.tradeSlug db) tradeLabel (matching env db f) (facets env db f).trade
  trade_sum : ((facets env db f).trade.map Facet.count).sum = (facets env db f).total
  timeline : Groups Job.timelineText textLabel (matching env db f) (facets env db f).timeline
  timeline_sum : ((facets env db f).timeline.map Facet.count).sum = (facets env db f).total
  buildType : Groups Job.buildTypeText textLabel (matching env db f) (facets env db f).buildType
  buildType_sum : ((facets env db f).buildType.map Facet.count).sum = (facets env db f).total

/-- Budgets that differ are different doubles. Budgets up to `2 ^ 53` cents are. -/
def DoublesApart (rows : List Job) : Prop :=
  ∀ x ∈ rows, ∀ y ∈ rows, ∀ a ∈ x.budgetMaxCents, ∀ b ∈ y.budgetMaxCents,
    env.toFloat8 a = env.toFloat8 b → a = b

variable {env db} {sort : SortOrder} {limit : ℤ}

/-- Which matching jobs the list shows. -/
theorem shownInList_iff {j : Job} :
    shownInList env db (queryOf f sort limit) j = true ↔ sort ≠ .budget ∨ j.budget.isSome = true ∨
      (matching env db f).countP (fun j => j.budget.isSome) < (clamp limit 1 maxPage).toNat := by
  rw [shownInList, Bool.or_eq_true, Bool.or_eq_true, decide_eq_true_eq, decide_eq_true_eq, or_assoc]
  rfl

/-- **At one instant the list can be walked**, and the walk shows the jobs that it shows at all
once. -/
theorem exists_walk_at (h : env.RoundTrips) (hmono : Monotone env.toFloat8) (now : Instant)
    (hapart : sort = .budget → DoublesApart env (matching env db f)) :
    ∃ S, Keyset.Walk (boardPages env db (fun _ => now) f sort limit) (passCursor env) 0 none S ∧
      S.Perm ((matching env db f).filter (shownInList env db (queryOf f sort limit))) := by
  by_cases hs : sort = .budget
  · obtain ⟨S, hw, hS⟩ := @exists_walk_budget env db (fun _ => now) f h hmono limit (hapart hs)
    subst hs
    refine ⟨S, hw, ?_⟩
    have hshown : shownInList env db (queryOf f .budget limit) = fun j => j.budget.isSome ||
        decide ((matching env db f).countP (fun x => x.budget.isSome) <
          (clamp limit 1 maxPage).toNat) := by
      funext j
      simp [shownInList, queryOf]
    rw [hS, hshown]
    exact (rowsBy_perm _).filter _
  · have hall : (matching env db f).filter (shownInList env db (queryOf f sort limit)) =
        matching env db f := by
      rw [List.filter_eq_self]
      intro j _
      simp [shownInList, queryOf, hs]
    rw [hall]
    exact ⟨_, (@walks_board_iff env db (fun _ => now) f sort limit).mp (walks_at h hs now), rowsBy_perm _⟩

/-- A walk of the board's rows is one of the board. -/
theorem walks_of_rows {instants : ℕ → Instant} {S : List Job}
    (hw : Keyset.Walk (boardPages env db instants f sort limit) (passCursor env) 0 none S) :
    Walks env db instants f sort limit (S.map (intoPublic env db f)) := by
  have hpages : (fun k c => ((list env db (instants k) f sort limit c).jobs,
      (list env db (instants k) f sort limit c).nextCursor)) =
      fun k c => ((boardPages env db instants f sort limit k c).1.map (intoPublic env db f),
        (boardPages env db instants f sort limit k c).2) := by
    funext k c
    rw [list_eq]
  rw [Walks, hpages, Keyset.Walk.map_iff]
  exact ⟨S, hw, rfl⟩

/-- Sorted choices are those of the groups. -/
theorem groups_sorted {κ : Type} [DecidableEq κ] (key : Job → κ) (label : κ × ℕ → Facet)
    (hlabel : ∀ g, (label g).count = g.2) (rows : List Job) :
    Groups key label rows (Sql.orderBy largestFirst ((groupBy key rows).map label)) ∧
      ((Sql.orderBy largestFirst ((groupBy key rows).map label)).map Facet.count).sum =
        rows.length := by
  have hperm := Sql.orderBy_perm largestFirst ((groupBy key rows).map label)
  refine ⟨(groups_groupBy key label rows).of_perm hperm, ?_⟩
  rw [(hperm.map Facet.count).sum_eq, List.map_map, ← sum_groupBy key rows]
  congr 1
  exact List.map_congr_left fun g _ => hlabel g

/-- **Where the total is the number of rows on all pages**: in any order but by budget always,
and by budget where all matching jobs have one, or fewer than a page of them. -/
theorem facets_conserved_iff (h : env.RoundTrips) (hmono : Monotone env.toFloat8) (db : Db)
    (now : Instant) (f : Filters) (sort : SortOrder) (limit : ℤ)
    (hapart : sort = .budget → DoublesApart env (matching env db f)) :
    Conserved env db now f sort limit ↔
      (sort = .budget → (∀ j ∈ matching env db f, j.budget.isSome = true) ∨
        (matching env db f).countP (fun j => j.budget.isSome) < (clamp limit 1 maxPage).toNat) := by
  obtain ⟨S, hw, hS⟩ := @exists_walk_at env db f sort limit h hmono now hapart
  have hwalks := walks_of_rows hw
  have htotal : (facets env db f).total = (matching env db f).length := by rw [facets_eq]
  have hshown : (matching env db f).length =
      ((matching env db f).filter (shownInList env db (queryOf f sort limit))).length ↔
      (sort = .budget → (∀ j ∈ matching env db f, j.budget.isSome = true) ∨
        (matching env db f).countP (fun j => j.budget.isSome) < (clamp limit 1 maxPage).toNat) := by
    rw [eq_comm, List.length_filter_eq_length_iff]
    constructor
    · intro hall hs
      by_cases hfew : (matching env db f).countP (fun j => j.budget.isSome) <
          (clamp limit 1 maxPage).toNat
      · exact Or.inr hfew
      · refine Or.inl fun j hj => ?_
        rcases shownInList_iff.mp (hall j hj) with hne | hbudget | hlt
        · exact absurd hs hne
        · exact hbudget
        · exact absurd hlt hfew
    · intro hcond j hj
      rw [shownInList_iff]
      by_cases hs : sort = .budget
      · rcases hcond hs with hall | hfew
        · exact Or.inr (Or.inl (hall j hj))
        · exact Or.inr (Or.inr hfew)
      · exact Or.inl hs
  rw [← hshown]
  constructor
  · rintro ⟨⟨xs, hxs, hlen⟩, -⟩
    rw [← htotal, hlen, hxs.unique hwalks, List.length_map, hS.length_eq]
  · intro hlen
    obtain ⟨htrade, htrades⟩ := groups_sorted (Job.tradeSlug db) tradeLabel (fun _ => rfl)
      (matching env db f)
    obtain ⟨htimeline, htimelines⟩ := groups_sorted Job.timelineText textLabel (fun _ => rfl)
      (matching env db f)
    obtain ⟨hbuildType, hbuildTypes⟩ := groups_sorted Job.buildTypeText textLabel (fun _ => rfl)
      (matching env db f)
    refine ⟨⟨_, hwalks, ?_⟩, ?_, ?_, ?_, ?_, ?_, ?_⟩
    · rw [htotal, hlen, List.length_map, hS.length_eq]
    all_goals rw [facets_eq]
    · exact htrade
    · exact htrades
    · exact htimeline
    · exact htimelines
    · exact hbuildType
    · exact hbuildTypes

/-- Of the two jobs on one page, both are counted and shown. -/
theorem facets_conserved_onePage : Conserved Search.Env.plain twoJobs 100 {} .budget 2 := by
  refine (facets_conserved_iff Search.Env.plain_roundTrips monotone_id twoJobs 100 {} .budget 2
    fun _ x _ y _ a _ b _ heq => ?_).mpr fun _ => Or.inr (by decide +kernel)
  exact Nat.cast_injective heq

/-- **Two jobs are counted and one is shown**: with one job to a page, the job without a budget is
on no page by budget. -/
theorem facets_conserved_budgetless :
    (facets Search.Env.plain twoJobs {}).total = 2 ∧
      ¬ Conserved Search.Env.plain twoJobs 100 {} .budget 1 := by
  have htotal : (facets Search.Env.plain twoJobs {}).total = 2 := by decide +kernel
  refine ⟨htotal, fun h => ?_⟩
  obtain ⟨xs, hxs, hlen⟩ := h.total
  rw [hxs.unique walks_twoJobs, htotal] at hlen
  exact absurd hlen (by decide +kernel)

end Conserved

end Marketplace.Board
