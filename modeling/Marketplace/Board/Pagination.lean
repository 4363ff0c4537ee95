import Marketplace.Board.Listing
import Mathlib.Algebra.Order.Ring.Rat
import Mathlib.Data.Nat.Cast.Order.Ring
import Mathlib.Tactic.Linarith

/-!
# Walking the board page by page

A client follows the cursors of the board until there is none
(`Marketplace.Board.Walks`). Put together, its pages ought to be the board: every row
that satisfies the predicate, once, in the order asked for. What `ORDER BY` sorts by and
what the keyset compares are written in two places, and the question is where they are
the same order.

| the board leads with | the two agree | theorem |
|---|---|---|
| the time, the relevance, the distance | always | `Marketplace.Board.walks_of_total` |
| the budget | unless a page ends on a budget and a job without one is to come, or on a budget that is as a double that of another | `Marketplace.Board.walks_budget_iff` |
| the fit | as long as the fit has not moved between two pages | `Marketplace.Board.walks_fit_iff` |

A job without a budget comes last, and a comparison of its budget with that of a cursor is
unknown: once a page has ended on a job with a budget, no later page finds it. The fit is
computed from the time of day, so the last job shown fits worse by the time of the next
page than its cursor says, and is shown again.
-/

namespace Marketplace.Board

open Search Sql

variable {env : Search.Env} {db : Db}

/-! ### The order of the rows -/

section Order

variable {o : BoardOrdering} {key : KeyExpr}

theorem orderBy_of_none (h : o.key = none) : o.orderBy = newestFirst := by
  rw [BoardOrdering.orderBy, h]

theorem orderBy_of_some (h : o.key = some key) :
    o.orderBy = compareLex
      (if o.descending then descNullsLast key.value else ascNullsLast key.value) newestFirst := by
  rw [BoardOrdering.orderBy, h]

instance transCmp_newestFirst : Std.TransCmp newestFirst :=
  inferInstanceAs (Std.TransCmp (compareLex (desc Job.createdAt) (desc Job.id)))

instance transCmp_orderBy (o : BoardOrdering) : Std.TransCmp o.orderBy := by
  rcases hk : o.key with _ | key
  · rw [orderBy_of_none hk]
    exact transCmp_newestFirst
  · rw [orderBy_of_some hk]
    rcases o.descending
    · exact inferInstanceAs (Std.TransCmp (compareLex (ascNullsLast key.value) newestFirst))
    · exact inferInstanceAs (Std.TransCmp (compareLex (descNullsLast key.value) newestFirst))

/-- Rows of one identifier are one row. -/
theorem eq_of_id_eq {a b : Job} (ha : a ∈ db.jobs) (hb : b ∈ db.jobs) (h : a.id = b.id) : a = b :=
  List.inj_on_of_nodup_map db.jobs_nodup ha hb h

/-- Every ordering ends on the identifier. -/
theorem eq_of_orderBy_eq {a b : Job} (ha : a ∈ db.jobs) (hb : b ∈ db.jobs)
    (h : o.orderBy a b = .eq) : a = b := by
  have hlast : newestFirst a b = .eq := by
    rcases hk : o.key with _ | key
    · rwa [orderBy_of_none hk] at h
    · rw [orderBy_of_some hk] at h
      exact (compareLex_eq_eq.mp h).2
  exact eq_of_id_eq ha hb (desc_eq_eq.mp (compareLex_eq_eq.mp hlast).2)

/-- A row that comes later in the queue than another. -/
theorem newestFirst_eq_lt {r x : Job} :
    newestFirst r x = .lt ↔
      x.createdAt < r.createdAt ∨ x.createdAt = r.createdAt ∧ x.id < r.id := by
  rw [newestFirst, compareLex_eq_lt, desc_eq_lt, desc_eq_eq, desc_eq_lt, eq_comm]

/-- A row that an ordering puts after another: past its key, or level with it and later in
the queue. -/
theorem orderBy_desc_eq_lt (h : o.key = some key) (hd : o.descending = true) {r x : Job} :
    o.orderBy r x = .lt ↔
      (∃ a ∈ key.value r, ∀ b ∈ key.value x, b < a) ∨
        key.value r = key.value x ∧ newestFirst r x = .lt := by
  rw [orderBy_of_some h, hd, if_pos rfl, compareLex_eq_lt, descNullsLast_eq_lt,
    descNullsLast_eq_eq]

theorem orderBy_asc_eq_lt (h : o.key = some key) (hd : o.descending = false) {r x : Job} :
    o.orderBy r x = .lt ↔
      (∃ a ∈ key.value r, ∀ b ∈ key.value x, a < b) ∨
        key.value r = key.value x ∧ newestFirst r x = .lt := by
  rw [orderBy_of_some h, hd, if_neg (by simp), compareLex_eq_lt, ascNullsLast_eq_lt,
    ascNullsLast_eq_eq]

end Order

/-! ### The rows that a cursor accepts -/

section Accepts

variable (env) (db)

/-- The rows of the board, in an ordering. -/
def rowsBy (f : Filters) (o : BoardOrdering) : List Job :=
  Sql.orderBy o.orderBy (db.jobs.filter fun j => (predicate env f j).holds)

/-- Whether a cursor accepts a row. -/
def accepts (o : BoardOrdering) (c : Cursor) (j : Job) : Bool := (o.keyset env (some c) j).holds

/-- The cursor that ends a page on a row. -/
def cursorAt (now : Instant) (sort : SortOrder) (f : Filters) (j : Job) : Cursor :=
  let o := orderingFor env db now sort f
  JobRow.cursor env o f ⟨j, ranked env db now o f j⟩

variable {env db} {o : BoardOrdering} {f : Filters}

theorem mem_rowsBy {j : Job} :
    j ∈ rowsBy env db f o ↔ j ∈ db.jobs ∧ (predicate env f j).holds = true := by
  rw [rowsBy, mem_orderBy, List.mem_filter]

theorem nodup_jobs : db.jobs.Nodup := db.jobs_nodup.of_map

theorem nodup_rowsBy : (rowsBy env db f o).Nodup :=
  (orderBy_perm _ _).nodup_iff.mpr (nodup_jobs.filter _)

/-- The board is in strict order. -/
theorem pairwise_rowsBy : (rowsBy env db f o).Pairwise fun a b => o.orderBy a b = .lt :=
  pairwise_orderBy_lt (fun _ ha _ hb => eq_of_orderBy_eq (List.mem_of_mem_filter ha)
    (List.mem_of_mem_filter hb)) (nodup_jobs.filter _)

/-- The rows fetched for a cursor are those of the board that it accepts. -/
theorem rowsBy_filter (c : Cursor) :
    orderBy o.orderBy
        (db.jobs.filter fun j => ((predicate env f j).and (o.keyset env (some c) j)).holds) =
      (rowsBy env db f o).filter (accepts env o c) := by
  have hkey : ∀ a ∈ db.jobs.filter fun j => (predicate env f j).holds,
      ∀ b ∈ db.jobs.filter fun j => (predicate env f j).holds, o.orderBy a b = .eq → a = b :=
    fun a ha b hb => eq_of_orderBy_eq (List.mem_of_mem_filter ha) (List.mem_of_mem_filter hb)
  rw [rowsBy, filter_orderBy hkey (nodup_jobs.filter _), List.filter_filter]
  congr 1
  refine List.filter_congr fun j _ => ?_
  rw [Truth.holds_and, accepts, Bool.and_comm]

/-- Without a cursor every row is kept. -/
theorem keyset_none (j : Job) : (o.keyset env none j).holds = true := by
  rw [BoardOrdering.keyset]
  rcases o.key with _ | key <;> simp

theorem accepts_of_none (h : o.key = none) (c : Cursor) (j : Job) :
    accepts env o c j = olderThan j c := by
  rw [accepts, BoardOrdering.keyset, h]
  simp [isNull]

/-- **What a cursor accepts**: rows past its key, and rows level with it that are later in
the queue. -/
theorem accepts_of_some {key : KeyExpr} (h : o.key = some key) {c : Cursor} {j : Job} :
    accepts env o c j = true ↔
      (∃ a ∈ key.asFloat8 env j, ∃ b ∈ c.sortKey, if o.descending then a < b else b < a) ∨
        key.asFloat8 env j = c.sortKey ∧ olderThan j c = true := by
  rw [accepts, BoardOrdering.keyset, h]
  simp only [Truth.holds_or, Truth.holds_and, Bool.or_eq_true, Bool.and_eq_true, holds_isNull,
    Option.isNone_some, Bool.false_eq_true, false_or, holds_notDistinct, decide_eq_true_eq,
    holds_test_some, Option.bind_some]
  rcases o.descending
  · simp only [Bool.false_eq_true, if_false, holds_lt]
    constructor <;> rintro (⟨a, ha, b, hb, h⟩ | h) <;>
      first | exact Or.inl ⟨b, hb, a, ha, h⟩ | exact Or.inr h
  · simp only [if_true, holds_lt]

/-- The pages of the board, as pages of a keyset query. -/
def boardPages (env : Search.Env) (db : Db) (instants : ℕ → Instant) (f : Filters)
    (sort : SortOrder) (limit : ℤ) : ℕ → Option Cursor → List Job × Option Cursor :=
  Keyset.pages (clamp limit 1 maxPage).toNat
    (fun k => rowsBy env db f (orderingFor env db (instants k) sort f))
    (fun k => accepts env (orderingFor env db (instants k) sort f))
    fun k => cursorAt env db (instants k) sort f

/-- **One page of the board is one page of the keyset query.** -/
theorem list_eq (instants : ℕ → Instant) (sort : SortOrder) (limit : ℤ) (k : ℕ)
    (c : Option Cursor) :
    list env db (instants k) f sort limit c =
      ⟨(boardPages env db instants f sort limit k c).1.map (intoPublic env db f),
        (boardPages env db instants f sort limit k c).2⟩ := by
  have hfound : orderBy (orderingFor env db (instants k) sort f).orderBy (db.jobs.filter fun j =>
      ((predicate env f j).and
        ((orderingFor env db (instants k) sort f).keyset env c j)).holds) =
      Keyset.found (fun k => rowsBy env db f (orderingFor env db (instants k) sort f))
        (fun k => accepts env (orderingFor env db (instants k) sort f)) k c := by
    rcases c with _ | c
    · rw [Keyset.found, rowsBy]
      congr 1
      refine List.filter_congr fun j _ => ?_
      rw [Truth.holds_and, keyset_none, Bool.and_true]
    · exact rowsBy_filter c
  rw [list]
  simp only [hfound, Keyset.takeNext_map]
  rw [boardPages, Keyset.pages, Keyset.page, List.map_map]
  rfl

/-- The cursor of a row carries the key that the ordering leads with. -/
theorem cursorAt_eq (now : Instant) (sort : SortOrder) (j : Job) :
    cursorAt env db now sort f j =
      ⟨j.createdAt, j.id,
        (orderingFor env db now sort f).key.bind fun key => key.asFloat8 env j⟩ := by
  rw [cursorAt, JobRow.cursor]
  congr 1
  rcases sort with _ | _ | _ | _ | _
  · rfl
  · rcases hq : f.query.isSome
    · simp [orderingFor, hq]
    · simp [orderingFor, hq, ranked, KeyExpr.asFloat8]
  · rfl
  · rcases hn : f.near.isSome
    · simp [orderingFor, hn]
    · simp [orderingFor, hn, KeyExpr.asFloat8]
  · rw [orderingFor]
    rcases hv : f.viewer with _ | v
    · rfl
    · simp [ranked, hv, KeyExpr.asFloat8]

/-- A row accepted in an ordering without a key is later in the queue. -/
theorem accepts_cursorAt_of_none {now : Instant} {sort : SortOrder}
    (h : o.key = none) {r x : Job} :
    accepts env o (cursorAt env db now sort f r) x = true ↔ newestFirst r x = .lt := by
  rw [accepts_of_none h, cursorAt_eq, newestFirst_eq_lt]
  simp [olderThan]

/-- A row accepted in an ordering with a key is past it, or level with it and later in the
queue. -/
theorem accepts_cursorAt_of_some {now : Instant} {sort : SortOrder} {key key' : KeyExpr}
    (h : o.key = some key) (h' : (orderingFor env db now sort f).key = some key') {r x : Job} :
    accepts env o (cursorAt env db now sort f r) x = true ↔
      (∃ a ∈ key.asFloat8 env x, ∃ b ∈ key'.asFloat8 env r,
        if o.descending then a < b else b < a) ∨
        key.asFloat8 env x = key'.asFloat8 env r ∧ newestFirst r x = .lt := by
  rw [accepts_of_some h, cursorAt_eq, h', newestFirst_eq_lt]
  simp [olderThan]

/-- **Acceptance is transitive**: what a row's cursor accepts after an accepted one, it
accepts. -/
theorem accepts_trans {now : Instant} {sort : SortOrder}
    (ho : o = orderingFor env db now sort f) (r s x : Job)
    (hrs : accepts env o (cursorAt env db now sort f r) s = true)
    (hsx : accepts env o (cursorAt env db now sort f s) x = true) :
    accepts env o (cursorAt env db now sort f r) x = true := by
  have hqueue : newestFirst r s = .lt → newestFirst s x = .lt → newestFirst r x = .lt :=
    @Std.TransCmp.lt_trans _ newestFirst _ _ _ _
  rcases hk : o.key with _ | key
  · rw [accepts_cursorAt_of_none hk] at *
    exact hqueue hrs hsx
  · have hk' : (orderingFor env db now sort f).key = some key := ho ▸ hk
    rw [accepts_cursorAt_of_some hk hk'] at *
    rcases hrs with ⟨a, ha, b, hb, hab⟩ | ⟨heq, hlt⟩
    · rcases hsx with ⟨c, hc, a', ha', hca⟩ | ⟨heq', -⟩
      · obtain rfl := Option.mem_unique ha ha'
        refine Or.inl ⟨c, hc, b, hb, ?_⟩
        split at hab <;> simp_all <;> exact lt_trans (by assumption) (by assumption)
      · exact Or.inl ⟨a, heq' ▸ ha, b, hb, hab⟩
    · rcases hsx with ⟨c, hc, a, ha, hca⟩ | ⟨heq', hlt'⟩
      · exact Or.inl ⟨c, hc, a, heq ▸ ha, hca⟩
      · exact Or.inr ⟨heq'.trans heq, hqueue hlt hlt'⟩

end Accepts

/-! ### Walks -/

section Walks

variable (env) (db)

/-- A cursor, sent to the client and back. -/
def passCursor (c : Cursor) : Option Cursor := (decodeCursor env (encodeCursor env c)).toOption

/-- **Following the cursors of the board**: asked at the given instants, the pages end and
put together are `xs`. -/
def Walks (instants : ℕ → Instant) (f : Filters) (sort : SortOrder) (limit : ℤ)
    (xs : List PublicJob) : Prop :=
  Keyset.Walk (fun k c => ((list env db (instants k) f sort limit c).jobs,
    (list env db (instants k) f sort limit c).nextCursor)) (passCursor env) 0 none xs

/-- **The board**: every row that satisfies the predicate, once, in the order asked for. -/
def board (now : Instant) (f : Filters) (sort : SortOrder) : List PublicJob :=
  (rowsBy env db f (orderingFor env db now sort f)).map (intoPublic env db f)

variable {env db} {instants : ℕ → Instant} {f : Filters} {sort : SortOrder} {limit : ℤ}

theorem passCursor_eq (h : env.RoundTrips) (c : Cursor) : passCursor env c = some c := by
  rw [passCursor, decodeCursor_encodeCursor h]
  rfl

theorem clamp_limit_pos (limit : ℤ) : 0 < (clamp limit 1 maxPage).toNat := by
  have : (1 : ℤ) ≤ clamp limit 1 maxPage := le_max_left _ _
  omega

/-- Walking the board is walking its rows. -/
theorem walks_board_iff :
    Walks env db instants f sort limit (board env db (instants 0) f sort) ↔
      Keyset.Walk (boardPages env db instants f sort limit) (passCursor env) 0 none
        (rowsBy env db f (orderingFor env db (instants 0) sort f)) := by
  have hpages : (fun k c => ((list env db (instants k) f sort limit c).jobs,
      (list env db (instants k) f sort limit c).nextCursor)) =
      fun k c => ((boardPages env db instants f sort limit k c).1.map (intoPublic env db f),
        (boardPages env db instants f sort limit k c).2) := by
    funext k c
    rw [list_eq]
  rw [Walks, hpages, board]
  refine Keyset.Walk.map_iff_of_injOn (P := fun j => j ∈ db.jobs) ?_ ?_ ?_
  · exact fun a b ha hb hab => eq_of_id_eq ha hb (congrArg PublicJob.id hab)
  · exact fun j hj => (mem_rowsBy.mp hj).1
  · exact fun k c j hj => (mem_rowsBy.mp (Keyset.mem_of_mem_pages hj)).1

end Walks

/-! ### Orders that do not change -/

section Fixed

variable {instants : ℕ → Instant} {f : Filters} {sort : SortOrder} {limit : ℤ}

/-- Only the order by fit depends on the time. -/
theorem orderingFor_const (h : sort ≠ .forMe) (now now' : Instant) :
    orderingFor env db now sort f = orderingFor env db now' sort f := by
  rcases sort with _ | _ | _ | _ | _
  · rfl
  · rfl
  · rfl
  · rfl
  · exact absurd rfl h

/-- An ordering without a key is the same at all times. -/
theorem orderingFor_of_unknown (hv : f.viewer = none) (now now' : Instant) :
    orderingFor env db now sort f = orderingFor env db now' sort f := by
  rcases sort with _ | _ | _ | _ | _
  · rfl
  · rfl
  · rfl
  · rfl
  · simp [orderingFor, hv]

/-- The pages of a board in one order. -/
theorem boardPages_eq_of_const
    (hconst : ∀ now now', orderingFor env db now sort f = orderingFor env db now' sort f) :
    boardPages env db instants f sort limit =
      Keyset.pages (clamp limit 1 maxPage).toNat
        (fun _ => rowsBy env db f (orderingFor env db (instants 0) sort f))
        (fun _ => accepts env (orderingFor env db (instants 0) sort f))
        fun _ => cursorAt env db (instants 0) sort f := by
  have hcursor : ∀ now, cursorAt env db now sort f = cursorAt env db (instants 0) sort f := by
    intro now
    funext j
    rw [cursorAt_eq, cursorAt_eq, hconst now (instants 0)]
  rw [boardPages]
  congr 1 <;> funext k
  · rw [hconst (instants k) (instants 0)]
  · rw [hconst (instants k) (instants 0)]
  · exact hcursor (instants k)

/-- **Walks at one instant**, at every boundary. -/
theorem walks_at_iff (h : env.RoundTrips) (now : Instant) :
    Walks env db (fun _ => now) f sort limit (board env db now f sort) ↔
      ∀ k, ∀ r ∈ (rowsBy env db f (orderingFor env db now sort f))[
          (k + 1) * (clamp limit 1 maxPage).toNat - 1]?,
        (k + 1) * (clamp limit 1 maxPage).toNat <
          (rowsBy env db f (orderingFor env db now sort f)).length →
        ∀ x ∈ rowsBy env db f (orderingFor env db now sort f),
          accepts env (orderingFor env db now sort f) (cursorAt env db now sort f r) x = true ↔
            (orderingFor env db now sort f).orderBy r x = .lt := by
  refine Iff.trans (@walks_board_iff env db (fun _ => now) f sort limit) ?_
  refine Keyset.walk_iff_of_order (clamp_limit_pos limit) (passCursor_eq h) pairwise_rowsBy ?_ ?_
  · intro x y hxy hyx
    exact absurd hyx (by rw [Std.OrientedCmp.gt_of_lt hxy]; decide)
  · exact fun r s x => accepts_trans rfl r s x

/-- Where the order does not change, a walk is one at the first instant. -/
theorem walks_of_const
    (hconst : ∀ now now', orderingFor env db now sort f = orderingFor env db now' sort f) :
    Walks env db instants f sort limit (board env db (instants 0) f sort) ↔
      Walks env db (fun _ => instants 0) f sort limit (board env db (instants 0) f sort) := by
  rw [walks_board_iff, boardPages_eq_of_const hconst]
  exact (@walks_board_iff env db (fun _ => instants 0) f sort limit).symm

/-- **A board that leads with a double that every row has** loses and repeats nothing. -/
theorem walks_of_float8 (h : env.RoundTrips) (now : Instant)
    (hkey : ∀ key ∈ (orderingFor env db now sort f).key, ∃ g, key = .float8 g ∧
      ∀ j, (predicate env f j).holds = true → (g j).isSome = true) :
    Walks env db (fun _ => now) f sort limit (board env db now f sort) := by
  rw [walks_at_iff h]
  intro k r hr _ x hx
  have hr := (mem_rowsBy.mp (List.mem_of_getElem? hr)).2
  have hx := (mem_rowsBy.mp hx).2
  rcases hk : (orderingFor env db now sort f).key with _ | key
  · rw [accepts_cursorAt_of_none hk, orderBy_of_none hk]
  · obtain ⟨g, rfl, hg⟩ := hkey key hk
    obtain ⟨a, ha⟩ := Option.isSome_iff_exists.mp (hg r hr)
    obtain ⟨b, hb⟩ := Option.isSome_iff_exists.mp (hg x hx)
    rw [accepts_cursorAt_of_some hk hk]
    rcases hd : (orderingFor env db now sort f).descending
    · rw [orderBy_asc_eq_lt hk hd]
      simp [KeyExpr.asFloat8, KeyExpr.value, ha, hb, eq_comm]
    · rw [orderBy_desc_eq_lt hk hd]
      simp [KeyExpr.asFloat8, KeyExpr.value, ha, hb, eq_comm]

/-- Except by budget, the board leads with a double that every row has, or with none. -/
theorem float8_of_ne_budget (hb : sort ≠ .budget) (now : Instant) :
    ∀ key ∈ (orderingFor env db now sort f).key, ∃ g, key = .float8 g ∧
      ∀ j, (predicate env f j).holds = true → (g j).isSome = true := by
  intro key hkey
  rcases sort with _ | _ | _ | _ | _
  · exact absurd hkey (by simp [orderingFor])
  · rcases hq : f.query with _ | q
    · exact absurd hkey (by simp [orderingFor, hq])
    · obtain rfl : KeyExpr.float8 (relevanceExpression env f) = key := by
        simpa [orderingFor, hq] using hkey
      exact ⟨_, rfl, fun j _ => by simp [relevanceExpression, hq]⟩
  · exact absurd rfl hb
  · rcases hn : f.near with _ | n
    · exact absurd hkey (by simp [orderingFor, hn])
    · obtain rfl : KeyExpr.float8 (distanceExpression env f) = key := by
        simpa [orderingFor, hn] using hkey
      refine ⟨_, rfl, fun j hj => ?_⟩
      -- a row near the centre has a point
      obtain ⟨p, hp, -⟩ := ((predicate_holds env).mp hj).2.1 n hn
      rw [distanceExpression, hn, Option.bind_some, hp]
      rfl
  · rcases hv : f.viewer with _ | v
    · exact absurd hkey (by simp [orderingFor, hv])
    · obtain rfl : KeyExpr.float8 (fun j => some (fitExpression env db now v j)) = key := by
        simpa [orderingFor, hv] using hkey
      exact ⟨_, rfl, fun j _ => rfl⟩

/-- **At one instant, every board but the one by budget is walked completely.** -/
theorem walks_at (h : env.RoundTrips) (hb : sort ≠ .budget) (now : Instant) :
    Walks env db (fun _ => now) f sort limit (board env db now f sort) :=
  walks_of_float8 h now (float8_of_ne_budget hb now)

/-- Newest first, by relevance or by distance, the board is walked completely. -/
theorem walks_of_total (h : env.RoundTrips) (hb : sort ≠ .budget)
    (hf : sort ≠ .forMe ∨ f.viewer = none) :
    Walks env db instants f sort limit (board env db (instants 0) f sort) := by
  have hconst : ∀ now now', orderingFor env db now sort f = orderingFor env db now' sort f := by
    rcases hf with hf | hf
    · exact orderingFor_const hf
    · exact orderingFor_of_unknown hf
  exact (walks_of_const hconst).mpr (walks_at h hb (instants 0))

end Fixed

/-! ### By budget -/

section Budget

variable {instants : ℕ → Instant} {f : Filters} {limit : ℤ}

/-- **Where pages by budget may end**: either every job has a budget or the jobs with one
do not fill a page, and no page ends on a job whose budget is, as a double, that of a job
with another budget, unless the lower of the two is the older one. -/
def BudgetsSplit (env : Search.Env) (rows : List Job) (limit : ℕ) : Prop :=
  ((∀ j ∈ rows, j.budget.isSome = true) ∨ rows.countP (fun j => j.budget.isSome) < limit) ∧
    ∀ k, ∀ r ∈ rows[(k + 1) * limit - 1]?, (k + 1) * limit < rows.length →
      ∀ x ∈ rows, ∀ a ∈ r.budgetMaxCents, ∀ b ∈ x.budgetMaxCents, a ≠ b →
        env.toFloat8 a = env.toFloat8 b → (b < a ↔ newestFirst r x = .lt)

/-- The order by budget. -/
def byBudget : BoardOrdering := ⟨some (.bigint Job.budgetMaxCents), some .budget, true⟩

theorem isSome_budgetMaxCents (j : Job) : j.budgetMaxCents.isSome = j.budget.isSome :=
  Option.isSome_map

/-- A job with a budget comes before one without. -/
theorem budget_before {r x : Job} (h : byBudget.orderBy r x = .lt) (hx : x.budget.isSome = true) :
    r.budget.isSome = true := by
  rw [orderBy_desc_eq_lt rfl rfl] at h
  rw [← isSome_budgetMaxCents] at hx ⊢
  rcases h with ⟨a, ha, -⟩ | ⟨heq, -⟩
  · obtain ⟨n, hn, -⟩ := Option.map_eq_some_iff.mp ha
    rw [hn]
    rfl
  · have := congrArg Option.isSome heq
    simp only [KeyExpr.value, Option.isSome_map] at this
    rw [this, hx]

/-- In the order by budget the jobs with one come first. -/
theorem budget_at {rows : List Job} (hs : rows.Pairwise fun a b => byBudget.orderBy a b = .lt)
    {n : ℕ} (hpos : 0 < n) {r : Job} (hr : rows[n - 1]? = some r) :
    r.budget.isSome = true ↔ n ≤ rows.countP fun j => j.budget.isSome := by
  have hsplit := Keyset.split_at hpos hr
  have hlen : (rows.take (n - 1)).length = n - 1 := by
    obtain ⟨hlt, -⟩ := List.getElem?_eq_some_iff.mp hr
    rw [List.length_take]
    omega
  rw [hsplit] at hs
  obtain ⟨-, hrm, hlr⟩ := List.pairwise_append.mp hs
  obtain ⟨hafter, -⟩ := List.pairwise_cons.mp hrm
  have hcount : rows.countP (fun j => j.budget.isSome) =
      (rows.take (n - 1)).countP (fun j => j.budget.isSome) +
        (r :: rows.drop n).countP fun j => j.budget.isSome := by
    conv_lhs => rw [hsplit]
    rw [List.countP_append]
  rw [hcount, List.countP_cons]
  rcases hrb : r.budget.isSome
  · -- no job after it has a budget, and not all before it need one
    have hrest : (rows.drop n).countP (fun j => j.budget.isSome) = 0 := by
      rw [List.countP_eq_zero]
      intro x hx hxb
      rw [budget_before (hafter x hx) hxb] at hrb
      exact absurd hrb (by simp)
    have hle := List.countP_le_length (p := fun j : Job => j.budget.isSome) (l := rows.take (n - 1))
    refine iff_of_false (by simp) ?_
    simp only [Bool.false_eq_true, if_false, hrest]
    omega
  · have hall : (rows.take (n - 1)).countP (fun j => j.budget.isSome) = (rows.take (n - 1)).length := by
      rw [List.countP_eq_length]
      exact fun x hx => budget_before (hlr x hx r List.mem_cons_self) hrb
    refine iff_of_true rfl ?_
    simp only [if_true]
    omega

/-- What the cursor of a row accepts in the order by budget. -/
theorem accepts_budget {now : Instant} {r x : Job} :
    accepts env byBudget (cursorAt env db now .budget f r) x = true ↔
      (∃ b ∈ x.budgetMaxCents, ∃ a ∈ r.budgetMaxCents, env.toFloat8 b < env.toFloat8 a) ∨
        (x.budgetMaxCents.map fun n : ℕ => env.toFloat8 n) =
            (r.budgetMaxCents.map fun n : ℕ => env.toFloat8 n) ∧
          newestFirst r x = .lt := by
  rw [accepts_cursorAt_of_some rfl rfl]
  rcases hx : x.budgetMaxCents with _ | b <;> rcases hr : r.budgetMaxCents with _ | a <;>
    simp [KeyExpr.asFloat8, hx, hr, byBudget]

/-- What the order by budget puts after a row. -/
theorem byBudget_eq_lt {r x : Job} :
    byBudget.orderBy r x = .lt ↔
      (∃ a ∈ r.budgetMaxCents, ∀ b ∈ x.budgetMaxCents, b < a) ∨
        r.budgetMaxCents = x.budgetMaxCents ∧ newestFirst r x = .lt := by
  rw [orderBy_desc_eq_lt rfl rfl]
  rcases hx : x.budgetMaxCents with _ | b <;> rcases hr : r.budgetMaxCents with _ | a <;>
    simp [KeyExpr.value, hx, hr]

/-- **Where the keyset by budget is the order**: after a job without a budget always, and
after one with a budget unless a job has none or one that is the same double. -/
theorem accepts_budget_iff (hmono : Monotone env.toFloat8) {now : Instant} {r x : Job} :
    (accepts env byBudget (cursorAt env db now .budget f r) x = true ↔
        byBudget.orderBy r x = .lt) ↔
      ∀ a ∈ r.budgetMaxCents, ∃ b ∈ x.budgetMaxCents,
        a ≠ b → env.toFloat8 a = env.toFloat8 b → (b < a ↔ newestFirst r x = .lt) := by
  have hle : ∀ a b : ℕ, a ≤ b → env.toFloat8 a ≤ env.toFloat8 b := fun a b h =>
    hmono (Nat.cast_le.mpr h)
  rw [accepts_budget, byBudget_eq_lt]
  rcases hr : r.budgetMaxCents with _ | a
  · rcases hx : x.budgetMaxCents with _ | b <;> simp
  · rcases hx : x.budgetMaxCents with _ | b
    · simp
    · rcases lt_trichotomy a b with hab | rfl | hab
      · -- the other budget is higher, so its row comes first
        have hf : ¬env.toFloat8 b < env.toFloat8 a := not_lt.mpr (hle a b hab.le)
        simp only [Option.mem_def, Option.some.injEq, exists_eq_left', forall_eq', Option.map_some,
          hf, false_or, hab.ne, not_lt.mpr hab.le, false_and, or_false, iff_false, ne_eq,
          not_false_eq_true, forall_true_left, false_iff, not_and]
        exact ⟨fun h heq => h heq.symm, fun h heq => h heq.symm⟩
      · simp
      · -- the other budget is lower, so its row comes later
        simp only [Option.mem_def, Option.some.injEq, exists_eq_left', forall_eq', Option.map_some,
          hab, true_or, iff_true, hab.ne', ne_eq, not_false_eq_true, forall_true_left, true_iff]
        rcases (hle b a hab.le).lt_or_eq with hlt | heq
        · simp [hlt, hlt.ne']
        · simp [heq]

/-- **Walks by budget.** -/
theorem walks_budget_iff (h : env.RoundTrips) (hmono : Monotone env.toFloat8) :
    Walks env db instants f .budget limit (board env db (instants 0) f .budget) ↔
      BudgetsSplit env (rowsBy env db f byBudget) (clamp limit 1 maxPage).toNat := by
  have hs : (rowsBy env db f byBudget).Pairwise fun a b => byBudget.orderBy a b = .lt :=
    pairwise_rowsBy
  have hL := clamp_limit_pos limit
  generalize hD : rowsBy env db f byBudget = rows at hs
  generalize hlim : (clamp limit 1 maxPage).toNat = L at hL
  have hwalk : Walks env db instants f .budget limit (board env db (instants 0) f .budget) ↔
      ∀ k, ∀ r ∈ rows[(k + 1) * L - 1]?, (k + 1) * L < rows.length → ∀ x ∈ rows,
        ∀ a ∈ r.budgetMaxCents, ∃ b ∈ x.budgetMaxCents,
          a ≠ b → env.toFloat8 a = env.toFloat8 b → (b < a ↔ newestFirst r x = .lt) := by
    rw [walks_of_const (orderingFor_const (by simp)), walks_at_iff h, ← hD, ← hlim]
    refine forall₃_congr fun k r _ => imp_congr_right fun _ => forall₂_congr fun x _ => ?_
    exact accepts_budget_iff hmono
  rw [hwalk, BudgetsSplit]
  constructor
  · intro hall
    refine ⟨?_, fun k r hr hk x hx a ha b hb => ?_⟩
    · -- a job without a budget comes after the first page, which then ends on one without
      by_contra hno
      obtain ⟨hnone, hmany⟩ := not_or.mp hno
      push Not at hnone
      obtain ⟨x, hx, hxb⟩ := hnone
      have hcount : rows.countP (fun j => j.budget.isSome) < rows.length := by
        refine lt_of_le_of_ne List.countP_le_length fun heq => hxb ?_
        exact List.countP_eq_length.mp heq x hx
      obtain ⟨r, hr⟩ : ∃ r, rows[(0 + 1) * L - 1]? = some r :=
        ⟨_, List.getElem?_eq_getElem (by omega)⟩
      have hrb : r.budget.isSome = true := by
        rw [Nat.zero_add, Nat.one_mul] at hr
        exact (budget_at hs hL hr).mpr (by omega)
      rw [← isSome_budgetMaxCents, Option.isSome_iff_exists] at hrb
      obtain ⟨a, ha⟩ := hrb
      obtain ⟨b, hb, -⟩ := hall 0 r hr (by omega) x hx a ha
      rw [← isSome_budgetMaxCents, hb] at hxb
      exact hxb rfl
    · obtain ⟨b', hb', hsplit⟩ := hall k r hr hk x hx a ha
      obtain rfl := Option.mem_unique hb hb'
      exact hsplit
  · rintro ⟨hbudget, hsame⟩ k r hr hk x hx a ha
    have hxb : x.budget.isSome = true := by
      rcases hbudget with hall | hfew
      · exact hall x hx
      · -- this page would end on a job with a budget
        have hrb : r.budget.isSome = true := by
          rw [← isSome_budgetMaxCents, ha]
          rfl
        have hpos : 0 < (k + 1) * L := Nat.mul_pos (Nat.succ_pos k) hL
        have hle := (budget_at hs hpos hr).mp hrb
        have : 1 * L ≤ (k + 1) * L := Nat.mul_le_mul_right L (by omega)
        omega
    rw [← isSome_budgetMaxCents, Option.isSome_iff_exists] at hxb
    obtain ⟨b, hb⟩ := hxb
    exact ⟨b, hb, hsame k r hr hk x hx a ha b hb⟩

end Budget

/-! ### By fit -/

section Fit

variable {instants : ℕ → Instant} {f : Filters} {limit : ℤ} {v : Viewer}

/-- The order by fit at a time. -/
def byFit (env : Search.Env) (db : Db) (now : Instant) (v : Viewer) : BoardOrdering :=
  ⟨some (.float8 fun j => some (fitExpression env db now v j)), some .fit, true⟩

/-- **The fit holds between pages**: measured for the next page, the jobs that fit worse
than the last one shown did, or as well and are later in the queue, are the jobs not yet
shown, and the best of them are the same as at first. -/
def FitHolds (env : Search.Env) (db : Db) (instants : ℕ → Instant) (f : Filters) (v : Viewer)
    (limit : ℕ) : Prop :=
  let rows := rowsBy env db f (byFit env db (instants 0) v)
  ∀ k, ∀ r ∈ rows[(k + 1) * limit - 1]?, (k + 1) * limit < rows.length →
    (∀ x ∈ rows, (fitExpression env db (instants (k + 1)) v x < fitExpression env db (instants k) v r ∨
        fitExpression env db (instants (k + 1)) v x = fitExpression env db (instants k) v r ∧
          newestFirst r x = .lt) ↔ x ∈ rows.drop ((k + 1) * limit)) ∧
      (orderBy (byFit env db (instants (k + 1)) v).orderBy (rows.drop ((k + 1) * limit))).take limit =
        (rows.drop ((k + 1) * limit)).take limit

theorem orderingFor_forMe (hv : f.viewer = some v) (now : Instant) :
    orderingFor env db now .forMe f = byFit env db now v := by
  rw [orderingFor, hv]
  rfl

/-- What the cursor of a row accepts in the order by fit, possibly later. -/
theorem accepts_fit (hv : f.viewer = some v) {now now' : Instant} {r x : Job} :
    accepts env (byFit env db now' v) (cursorAt env db now .forMe f r) x = true ↔
      fitExpression env db now' v x < fitExpression env db now v r ∨
        fitExpression env db now' v x = fitExpression env db now v r ∧ newestFirst r x = .lt := by
  have hkey : (orderingFor env db now .forMe f).key =
      some (.float8 fun j => some (fitExpression env db now v j)) := by
    rw [orderingFor_forMe hv]
    rfl
  rw [accepts_cursorAt_of_some (o := byFit env db now' v) rfl hkey]
  simp [KeyExpr.asFloat8, byFit]

/-- **A job never fits better later on.** -/
theorem fitExpression_antitone (hexp : Monotone env.exp) (hmono : Monotone env.toFloat8)
    {now now' : Instant} (hle : now ≤ now') (j : Job) :
    fitExpression env db now' v j ≤ fitExpression env db now v j := by
  refine hmono ?_
  have hage : -((now' : ℚ) - j.createdAt) / 1209600 ≤ -((now : ℚ) - j.createdAt) / 1209600 := by
    have : (now : ℚ) ≤ now' := Nat.cast_le.mpr hle
    linarith
  have := hexp hage
  linarith

/-- The rows by fit are the same at all times, up to their order. -/
theorem byFit_perm (now now' : Instant) :
    (rowsBy env db f (byFit env db now v)).Perm (rowsBy env db f (byFit env db now' v)) :=
  (orderBy_perm _ _).trans (orderBy_perm _ _).symm

/-- Sorting rows of the board again is sorting the board. -/
theorem orderBy_eq_of_perm {o : BoardOrdering} {l m : List Job} (hl : ∀ j ∈ l, j ∈ db.jobs)
    (hnodup : l.Nodup) (hs : m.Pairwise fun a b => o.orderBy a b = .lt) (hperm : l.Perm m) :
    orderBy o.orderBy l = m := by
  have h1 : (orderBy o.orderBy l).Pairwise fun a b => o.orderBy a b = .lt :=
    pairwise_orderBy_lt (fun a ha b hb => eq_of_orderBy_eq (hl a ha) (hl b hb)) hnodup
  refine ((orderBy_perm _ _).trans hperm).eq_of_pairwise ?_ h1 hs
  intro a b _ _ hab hba
  rw [Std.OrientedCmp.gt_of_lt hab] at hba
  exact absurd hba (by decide)

/-- **Walks by fit.** -/
theorem walks_fit_iff (h : env.RoundTrips) (hexp : Monotone env.exp) (hmono : Monotone env.toFloat8)
    (hinst : Monotone instants) (hv : f.viewer = some v) :
    Walks env db instants f .forMe limit (board env db (instants 0) f .forMe) ↔
      FitHolds env db instants f v (clamp limit 1 maxPage).toNat := by
  have hkeep : ∀ k r x, [r, x].Sublist (rowsBy env db f (byFit env db (instants k) v)) →
      accepts env (byFit env db (instants (k + 1)) v) (cursorAt env db (instants k) .forMe f r) x
        = true := by
    intro k r x hsub
    have hlt : (byFit env db (instants k) v).orderBy r x = .lt :=
      (List.pairwise_cons.mp (pairwise_rowsBy.sublist hsub)).1 x (by simp)
    have hle := @fitExpression_antitone _ db v hexp hmono _ _ (hinst (Nat.le_succ k)) x
    rw [accepts_fit hv]
    rw [orderBy_desc_eq_lt rfl rfl] at hlt
    simp only [KeyExpr.value, Option.mem_def, Option.some.injEq, exists_eq_left', forall_eq'] at hlt
    rcases hlt with hlt | ⟨heq, hlt⟩
    · exact Or.inl (hle.trans_lt hlt)
    · rcases hle.lt_or_eq with hless | hsame
      · exact Or.inl (heq ▸ hless)
      · exact Or.inr ⟨hsame.trans heq.symm, hlt⟩
  rw [walks_board_iff, boardPages]
  simp only [orderingFor_forMe hv]
  rw [Keyset.walk_iff_of_keeps hkeep (clamp_limit_pos limit) (passCursor_eq h)
    (fun i j => byFit_perm (instants i) (instants j)) nodup_rowsBy, FitHolds]
  refine forall_congr' fun k => forall₂_congr fun r hr => imp_congr_right fun hk => ?_
  generalize hn : (k + 1) * (clamp limit 1 maxPage).toNat = n
  have hmem : ∀ x, x ∈ Keyset.found (fun k => rowsBy env db f (byFit env db (instants k) v))
      (fun k => accepts env (byFit env db (instants k) v)) (k + 1)
        (some (cursorAt env db (instants k) .forMe f r)) ↔
      x ∈ rowsBy env db f (byFit env db (instants 0) v) ∧
        (fitExpression env db (instants (k + 1)) v x < fitExpression env db (instants k) v r ∨
          fitExpression env db (instants (k + 1)) v x = fitExpression env db (instants k) v r ∧
            newestFirst r x = .lt) := by
    intro x
    rw [Keyset.mem_found_some, accepts_fit hv,
      (byFit_perm (instants (k + 1)) (instants 0)).mem_iff]
  have hsorted : (Keyset.found (fun k => rowsBy env db f (byFit env db (instants k) v))
      (fun k => accepts env (byFit env db (instants k) v)) (k + 1)
        (some (cursorAt env db (instants k) .forMe f r))).Pairwise fun a b =>
          (byFit env db (instants (k + 1)) v).orderBy a b = .lt :=
    pairwise_rowsBy.sublist (Keyset.found_sublist _ _)
  have hdrop : ((rowsBy env db f (byFit env db (instants 0) v)).drop n).Nodup :=
    nodup_rowsBy.sublist (List.drop_sublist _ _)
  have hperm : (Keyset.found (fun k => rowsBy env db f (byFit env db (instants k) v))
      (fun k => accepts env (byFit env db (instants k) v)) (k + 1)
        (some (cursorAt env db (instants k) .forMe f r))).Perm
          ((rowsBy env db f (byFit env db (instants 0) v)).drop n) ↔
      ∀ x ∈ rowsBy env db f (byFit env db (instants 0) v),
        (fitExpression env db (instants (k + 1)) v x < fitExpression env db (instants k) v r ∨
          fitExpression env db (instants (k + 1)) v x = fitExpression env db (instants k) v r ∧
            newestFirst r x = .lt) ↔
          x ∈ (rowsBy env db f (byFit env db (instants 0) v)).drop n := by
    rw [List.perm_ext_iff_of_nodup (nodup_rowsBy.sublist (Keyset.found_sublist _ _)) hdrop]
    constructor
    · intro hall x hx
      rw [← hall x, hmem x]
      exact ⟨fun hp => ⟨hx, hp⟩, fun hp => hp.2⟩
    · intro hall x
      rw [hmem x]
      constructor
      · exact fun hx => (hall x hx.1).mp hx.2
      · exact fun hx => ⟨List.mem_of_mem_drop hx, (hall x (List.mem_of_mem_drop hx)).mpr hx⟩
  rw [hperm]
  refine and_congr_right fun hall => ?_
  rw [orderBy_eq_of_perm (fun j hj => (mem_rowsBy.mp (List.mem_of_mem_drop hj)).1) hdrop hsorted
    (hperm.mpr hall).symm]

end Fit

/-! ### Every order -/

/-- **When the pages of the board are the board**: always, when it leads with the time, the
relevance or the distance, and under a condition when it leads with the budget or the
fit. -/
def PagesFit (env : Search.Env) (db : Db) (instants : ℕ → Instant) (f : Filters)
    (sort : SortOrder) (limit : ℤ) : Prop :=
  match sort with
  | .newest | .best | .distance => True
  | .budget => BudgetsSplit env (rowsBy env db f byBudget) (clamp limit 1 maxPage).toNat
  | .forMe => ∀ v ∈ f.viewer, FitHolds env db instants f v (clamp limit 1 maxPage).toNat

/-- **The pages of the board, put together, are the board**, every row once and in order,
exactly when they fit. -/
theorem board_pages_iff (h : env.RoundTrips) (hexp : Monotone env.exp)
    (hround : Monotone env.toFloat8) (db : Db) {instants : ℕ → Instant}
    (hinst : Monotone instants) (f : Filters) (sort : SortOrder) (limit : ℤ) :
    Walks env db instants f sort limit (board env db (instants 0) f sort) ↔
      PagesFit env db instants f sort limit := by
  rcases sort with _ | _ | _ | _ | _
  · exact iff_of_true (walks_of_total h (by simp) (Or.inl (by simp))) trivial
  · exact iff_of_true (walks_of_total h (by simp) (Or.inl (by simp))) trivial
  · exact walks_budget_iff h hround
  · exact iff_of_true (walks_of_total h (by simp) (Or.inl (by simp))) trivial
  · rcases hv : f.viewer with _ | v
    · exact iff_of_true (walks_of_total h (by simp) (Or.inr hv)) (by simp [PagesFit, hv])
    · rw [walks_fit_iff h hexp hround hinst hv]
      simp [PagesFit, hv]

/-! ### Two jobs, one without a budget -/

/-- A job as it might be posted. -/
def postedJob (id : Uuid) (budget : Option Budget) (createdAt : Instant) : Job where
  id := id
  postedByUserId := 7
  title := "Repipe a bathroom".toList
  description := "The copper under the upstairs bathroom has started to leak.".toList
  tradeId := some 36
  status := .opened
  buildType := .repair
  jobSize := "One bathroom".toList
  budget := budget
  timeline := .asap
  postalCode := "90026".toList
  publicPoint := none
  closedAt := none
  createdAt := createdAt
  alertsMatchedAt := none
  closed_iff := by simp

/-- A board of two jobs, of which the newer has no budget. -/
def twoJobs : Db where
  jobs := [postedJob 1 (some ⟨50000, 80000, by decide⟩) 10, postedJob 2 none 20]
  conversations := []
  vocabulary := ⟨[], []⟩
  displayName := fun _ => some "Maria Lopez".toList
  jobs_nodup := by decide

/-- On one page of two, the jobs are all there. -/
theorem board_pages_iff_onePage :
    Walks Search.Env.plain twoJobs (fun _ => 100) {} .budget 2
      (board Search.Env.plain twoJobs 100 {} .budget) := by
  refine (board_pages_iff Search.Env.plain_roundTrips monotone_id monotone_id twoJobs monotone_const {}
    .budget 2).mpr ⟨Or.inr (by decide +kernel), fun k r _ hk => ?_⟩
  have hlen : (rowsBy Search.Env.plain twoJobs {} byBudget).length = 2 := by decide +kernel
  have hlimit : (clamp 2 1 maxPage).toNat = 2 := by decide
  rw [hlen, hlimit] at hk
  omega

/-- The walk by budget over the two jobs, one to a page: it ends after the job with one. -/
theorem walks_twoJobs : Walks Search.Env.plain twoJobs (fun _ => 100) {} .budget 1
    ((list Search.Env.plain twoJobs 100 {} .budget 1 none).jobs ++
      (list Search.Env.plain twoJobs 100 {} .budget 1 (some ⟨10, 1, some 80000⟩)).jobs) := by
  have hfirst : (list Search.Env.plain twoJobs 100 {} .budget 1 none).nextCursor =
      some ⟨10, 1, some 80000⟩ := by decide +kernel
  have hsecond : (list Search.Env.plain twoJobs 100 {} .budget 1 (some ⟨10, 1, some 80000⟩)).nextCursor =
      none := by decide +kernel
  exact .more (Prod.ext rfl hfirst) (passCursor_eq Search.Env.plain_roundTrips _)
    (.last (Prod.ext rfl hsecond))

/-- **A job without a budget is lost**: with one job to a page, the page by budget that ends
on the job with one is followed by none. -/
theorem budgetless_lost :
    ¬Walks Search.Env.plain twoJobs (fun _ => 100) {} .budget 1
      (board Search.Env.plain twoJobs 100 {} .budget) := by
  intro h
  have hlen := congrArg List.length (h.unique walks_twoJobs)
  exact absurd hlen (by decide +kernel)

end Marketplace.Board
