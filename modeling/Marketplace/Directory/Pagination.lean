import Marketplace.Directory.Listing
import Mathlib.Algebra.Order.Ring.Rat

/-!
# Walking the directory page by page

A client follows the cursors of the directory until there is none
(`Marketplace.Directory.Walks`). Put together, its pages ought to be the directory
(`Marketplace.Directory.directory`): every contractor that satisfies the predicate, once, in
the order asked for.

The orders that lead with a key every row has, and the order by name, are walked completely
(`Marketplace.Directory.accepts_iff_of_total`). A contractor without a public point has no
distance; by distance it comes last, and a comparison of its distance with that of a cursor
is unknown, as is a comparison with the missing key of its own cursor. So it is only ever
shown on the first page: `Marketplace.Directory.directory_pages_iff`.
-/

namespace Marketplace.Directory

open Search Sql

variable {env : Search.Env} {db : Db}

/-! ### The order of the rows -/

section Order

variable {o : DirectoryOrdering} {key : Contractor → Option ℚ}

instance transCmp_collation (env : Search.Env) : Std.TransCmp (collation env) :=
  inferInstanceAs (Std.TransCmp (compareLex (asc env.collate) (asc id)))

instance transCmp_names (env : Search.Env) :
    Std.TransCmp fun a b : Contractor => collation env a.displayName b.displayName where
  eq_swap {_ _} := @Std.OrientedCmp.eq_swap _ (collation env) _ _ _
  isLE_trans {_ _ _} := @Std.TransCmp.isLE_trans _ (collation env) _ _ _ _

instance transCmp_byName (env : Search.Env) : Std.TransCmp (byName env) :=
  inferInstanceAs (Std.TransCmp (compareLex
    (fun a b : Contractor => collation env a.displayName b.displayName) (asc Contractor.id)))

theorem orderBy_of_none (h : o.key = none) : o.orderBy env = byName env := by
  rw [DirectoryOrdering.orderBy, h]

theorem orderBy_of_some (h : o.key = some key) :
    o.orderBy env =
      compareLex (if o.descending then descNullsFirst key else ascNullsLast key) (byName env) := by
  rw [DirectoryOrdering.orderBy, h]

instance transCmp_orderBy (env : Search.Env) (o : DirectoryOrdering) :
    Std.TransCmp (o.orderBy env) := by
  rcases hk : o.key with _ | key
  · rw [orderBy_of_none hk]
    exact transCmp_byName env
  · rw [orderBy_of_some hk]
    rcases o.descending
    · exact inferInstanceAs (Std.TransCmp (compareLex (ascNullsLast key) (byName env)))
    · exact inferInstanceAs (Std.TransCmp (compareLex (descNullsFirst key) (byName env)))

/-- Every ordering ends on the identifier. -/
theorem eq_of_orderBy_eq {a b : Contractor} (ha : a ∈ db.contractors) (hb : b ∈ db.contractors)
    (h : o.orderBy env a b = .eq) : a = b := by
  have hlast : byName env a b = .eq := by
    rcases hk : o.key with _ | key
    · rwa [orderBy_of_none hk] at h
    · rw [orderBy_of_some hk] at h
      exact (compareLex_eq_eq.mp h).2
  exact eq_of_id_eq ha hb (asc_eq_eq.mp (compareLex_eq_eq.mp hlast).2)

/-- Two orders by name and identifier, the one of rows and the one beside a cursor, agree. -/
theorem byName_eq_lt {r x : Contractor} (key : Option ℚ) :
    byName env r x = .lt ↔ afterName env x ⟨r.displayName, r.id, key⟩ = true := by
  rw [byName, compareLex_eq_lt, asc_eq_lt, afterName]
  rcases collation env r.displayName x.displayName <;> simp

theorem orderBy_asc_eq_lt (h : o.key = some key) (hd : o.descending = false) {r x : Contractor} :
    o.orderBy env r x = .lt ↔
      (∃ a ∈ key r, ∀ b ∈ key x, a < b) ∨ key r = key x ∧ byName env r x = .lt := by
  rw [orderBy_of_some h, hd, if_neg (by simp), compareLex_eq_lt, ascNullsLast_eq_lt,
    ascNullsLast_eq_eq]

theorem orderBy_desc_eq_lt (h : o.key = some key) (hd : o.descending = true) {r x : Contractor} :
    o.orderBy env r x = .lt ↔
      (∃ b ∈ key x, ∀ a ∈ key r, b < a) ∨ key r = key x ∧ byName env r x = .lt := by
  rw [orderBy_of_some h, hd, if_pos rfl, compareLex_eq_lt, descNullsFirst_eq_lt,
    descNullsFirst_eq_eq]

end Order

/-! ### The rows that a cursor accepts -/

section Accepts

variable (env) (db)

/-- The contractors a search is about, in an ordering. -/
def rowsBy (f : Filters) (o : DirectoryOrdering) : List Contractor :=
  Sql.orderBy (o.orderBy env) (matching env db f)

/-- A contractor as the list shows it. -/
def listed (f : Filters) (c : Contractor) : PublicContractor :=
  project env db f (some (rankExpression env db f c)) c

/-- Whether a cursor accepts a row. -/
def accepts (o : DirectoryOrdering) (cursor : Cursor) (c : Contractor) : Bool :=
  (o.keyset env (some cursor) c).holds

/-- The cursor that ends a page on a row. -/
def cursorAt (sort : SortOrder) (f : Filters) (c : Contractor) : Cursor :=
  (listed env db f c).cursor (orderingFor env db sort f)

variable {env db} {o : DirectoryOrdering} {f : Filters} {sort : SortOrder}

theorem mem_rowsBy {c : Contractor} : c ∈ rowsBy env db f o ↔ c ∈ matching env db f := by
  rw [rowsBy, mem_orderBy]

theorem mem_contractors {c : Contractor} (h : c ∈ matching env db f) : c ∈ db.contractors :=
  List.mem_of_mem_filter h

theorem nodup_matching : (matching env db f).Nodup := db.contractors_nodup.of_map.filter _

/-- The directory is in strict order. -/
theorem pairwise_rowsBy : (rowsBy env db f o).Pairwise fun a b => o.orderBy env a b = .lt :=
  pairwise_orderBy_lt (fun _ ha _ hb => eq_of_orderBy_eq (mem_contractors ha) (mem_contractors hb))
    nodup_matching

/-- Without a cursor every row is kept. -/
theorem keyset_none (c : Contractor) : (o.keyset env none c).holds = true := by
  rw [DirectoryOrdering.keyset]
  rcases o.key with _ | key <;> simp

/-- The rows fetched for a cursor are those of the directory that it accepts. -/
theorem rowsBy_filter (cursor : Option Cursor) :
    Sql.orderBy (o.orderBy env) (db.contractors.filter fun c =>
        ((predicate env db f (contractorsServing env db f.near) c).and
          (o.keyset env cursor c)).holds) =
      Keyset.found (fun _ => rowsBy env db f o) (fun _ => accepts env o) 0 cursor := by
  have hkey : ∀ a ∈ matching env db f, ∀ b ∈ matching env db f, o.orderBy env a b = .eq → a = b :=
    fun a ha b hb => eq_of_orderBy_eq (mem_contractors ha) (mem_contractors hb)
  rcases cursor with _ | cursor
  · rw [Keyset.found, rowsBy, matching]
    congr 1
    refine List.filter_congr fun c _ => ?_
    rw [Truth.holds_and, keyset_none, Bool.and_true]
  · rw [Keyset.found, rowsBy, filter_orderBy hkey nodup_matching, matching, List.filter_filter]
    congr 1
    refine List.filter_congr fun c _ => ?_
    rw [Truth.holds_and, accepts, Bool.and_comm]

/-- The pages of the directory, as pages of a keyset query. -/
def directoryPages (env : Search.Env) (db : Db) (f : Filters) (sort : SortOrder) (limit : ℤ) :
    ℕ → Option Cursor → List Contractor × Option Cursor :=
  Keyset.pages (clamp limit 1 maxPage).toNat
    (fun _ => rowsBy env db f (orderingFor env db sort f))
    (fun _ => accepts env (orderingFor env db sort f)) fun _ => cursorAt env db sort f

/-- **One page of the directory is one page of the keyset query.** -/
theorem list_eq (limit : ℤ) (k : ℕ) (cursor : Option Cursor) :
    list env db f sort limit cursor =
      ⟨(directoryPages env db f sort limit k cursor).1.map (listed env db f),
        (directoryPages env db f sort limit k cursor).2⟩ := by
  have hlisted : (fun c => project env db f (some (rankExpression env db f c)) c) =
      listed env db f := rfl
  have hfound : Keyset.found (fun _ => rowsBy env db f (orderingFor env db sort f))
      (fun _ => accepts env (orderingFor env db sort f)) 0 cursor =
      Keyset.found (fun _ => rowsBy env db f (orderingFor env db sort f))
        (fun _ => accepts env (orderingFor env db sort f)) k cursor := by
    rcases cursor with _ | cursor <;> rfl
  rw [list]
  dsimp only
  rw [orderBy_take, rowsBy_filter, hlisted, Keyset.takeNext_map, hfound, directoryPages,
    Keyset.pages, Keyset.page]
  rfl

/-- The cursor of a row carries its name, its identifier and the key that the ordering leads
with. -/
theorem cursorAt_eq (c : Contractor) :
    cursorAt env db sort f c =
      ⟨c.displayName, c.id, (orderingFor env db sort f).key.bind fun key => key c⟩ := by
  rw [cursorAt, PublicContractor.cursor]
  congr 1
  rcases sort with _ | _ | _ | _
  · rcases hq : f.query.isNone
    · simp [orderingFor, hq, listed, project]
    · simp [orderingFor, hq, listed, project]
  · rfl
  · rcases hn : f.near.isSome
    · simp [orderingFor, hn]
    · simp [orderingFor, hn, listed, project]
  · rfl

/-- A row accepted in the order by name comes later by name. -/
theorem accepts_of_none (h : (orderingFor env db sort f).key = none) {r x : Contractor} :
    accepts env (orderingFor env db sort f) (cursorAt env db sort f r) x = true ↔
      byName env r x = .lt := by
  rw [accepts, DirectoryOrdering.keyset, h, cursorAt_eq, h, byName_eq_lt none]
  simp [isNull]

/-- **What the cursor of a row accepts**: rows past its key, and rows level with it that come
later by name, of those that have a key as the row itself does. -/
theorem accepts_of_some {key : Contractor → Option ℚ}
    (h : (orderingFor env db sort f).key = some key) {r x : Contractor} :
    accepts env (orderingFor env db sort f) (cursorAt env db sort f r) x = true ↔
      ∃ a ∈ key r, ∃ b ∈ key x,
        (if (orderingFor env db sort f).descending then b < a else a < b) ∨
          a = b ∧ byName env r x = .lt := by
  rw [accepts, DirectoryOrdering.keyset, h, cursorAt_eq, h, byName_eq_lt (key r)]
  simp only [Truth.holds_or, Truth.holds_and, Bool.or_eq_true, Bool.and_eq_true, holds_isNull,
    Option.isNone_some, Bool.false_eq_true, false_or, holds_eq, holds_test_some, Option.bind_some]
  rcases key r with _ | a
  · rcases (orderingFor env db sort f).descending <;> simp [holds_lt]
  · rcases key x with _ | b
    · rcases (orderingFor env db sort f).descending <;> simp [holds_lt]
    · rcases (orderingFor env db sort f).descending <;> simp [holds_lt]

/-- **Acceptance is transitive**: what a row's cursor accepts after an accepted one, it
accepts. -/
theorem accepts_trans (r s x : Contractor)
    (hrs : accepts env (orderingFor env db sort f) (cursorAt env db sort f r) s = true)
    (hsx : accepts env (orderingFor env db sort f) (cursorAt env db sort f s) x = true) :
    accepts env (orderingFor env db sort f) (cursorAt env db sort f r) x = true := by
  have hname : byName env r s = .lt → byName env s x = .lt → byName env r x = .lt :=
    @Std.TransCmp.lt_trans _ (byName env) _ _ _ _
  rcases hk : (orderingFor env db sort f).key with _ | key
  · rw [accepts_of_none hk] at *
    exact hname hrs hsx
  · rw [accepts_of_some hk] at *
    obtain ⟨a, ha, b, hb, hab⟩ := hrs
    obtain ⟨b', hb', c, hc, hbc⟩ := hsx
    obtain rfl := Option.mem_unique hb hb'
    refine ⟨a, ha, c, hc, ?_⟩
    rcases hab with hab | ⟨rfl, hab⟩
    · rcases hbc with hbc | ⟨rfl, -⟩
      · left
        split at hab <;> simp_all <;> exact lt_trans (by assumption) (by assumption)
      · exact Or.inl hab
    · rcases hbc with hbc | ⟨rfl, hbc⟩
      · exact Or.inl hbc
      · exact Or.inr ⟨rfl, hname hab hbc⟩

/-- **Between rows that have the key, the keyset is the order.** -/
theorem accepts_iff_of_some {key : Contractor → Option ℚ}
    (h : (orderingFor env db sort f).key = some key) {r x : Contractor}
    (hr : (key r).isSome = true) (hx : (key x).isSome = true) :
    accepts env (orderingFor env db sort f) (cursorAt env db sort f r) x = true ↔
      (orderingFor env db sort f).orderBy env r x = .lt := by
  obtain ⟨a, ha⟩ := Option.isSome_iff_exists.mp hr
  obtain ⟨b, hb⟩ := Option.isSome_iff_exists.mp hx
  rw [accepts_of_some h]
  rcases hd : (orderingFor env db sort f).descending
  · rw [orderBy_asc_eq_lt h hd]
    simp [ha, hb]
  · rw [orderBy_desc_eq_lt h hd]
    simp [ha, hb]

/-- The rows of every ordering but the one by distance have its key. -/
theorem isSome_key {key : Contractor → Option ℚ}
    (h : (orderingFor env db sort f).key = some key)
    (hs : sort = .distance → f.near.isSome = true →
      ∀ c ∈ matching env db f, c.publicPoint.isSome = true) {c : Contractor}
    (hc : c ∈ matching env db f) : (key c).isSome = true := by
  rcases sort with _ | _ | _ | _
  · rcases hq : f.query.isNone
    · simp only [orderingFor, hq, Bool.false_eq_true, if_false, Option.some.injEq] at h
      rw [← h]
      rfl
    · simp only [orderingFor, hq, if_true, Option.some.injEq] at h
      rw [← h]
      rfl
  · simp only [orderingFor, Option.some.injEq] at h
    rw [← h]
    rfl
  · rcases hn : f.near with _ | n
    · simp [orderingFor, hn] at h
    · simp only [orderingFor, hn, Option.isSome_some, if_true, Option.some.injEq] at h
      rw [← h, distanceExpression, hn, Option.bind_some, Option.isSome_map]
      exact hs rfl (by rw [hn]; rfl) c hc
  · simp [orderingFor] at h

end Accepts

/-! ### Walks -/

section Walks

variable (env) (db)

/-- A cursor, sent to the client and back. -/
def passCursor (c : Cursor) : Option Cursor := (decodeCursor env (encodeCursor env c)).toOption

/-- **Following the cursors of the directory**: the pages end, and put together are `xs`. -/
def Walks (f : Filters) (sort : SortOrder) (limit : ℤ) (xs : List PublicContractor) : Prop :=
  Keyset.Walk (fun _ c => ((list env db f sort limit c).contractors,
    (list env db f sort limit c).nextCursor)) (passCursor env) 0 none xs

/-- **The directory**: every contractor that satisfies the predicate, once, in the order asked
for. -/
def directory (f : Filters) (sort : SortOrder) : List PublicContractor :=
  (rowsBy env db f (orderingFor env db sort f)).map (listed env db f)

variable {env db} {f : Filters} {sort : SortOrder} {limit : ℤ}

theorem passCursor_eq (h : env.RoundTrips) (c : Cursor) : passCursor env c = some c := by
  rw [passCursor, decodeCursor_encodeCursor h]
  rfl

theorem clamp_limit_pos (limit : ℤ) : 0 < (clamp limit 1 maxPage).toNat := by
  have : (1 : ℤ) ≤ clamp limit 1 maxPage := le_max_left _ _
  omega

/-- Walking the directory is walking its rows. -/
theorem walks_directory_iff :
    Walks env db f sort limit (directory env db f sort) ↔
      Keyset.Walk (directoryPages env db f sort limit) (passCursor env) 0 none
        (rowsBy env db f (orderingFor env db sort f)) := by
  have hpages : (fun (_ : ℕ) c => ((list env db f sort limit c).contractors,
      (list env db f sort limit c).nextCursor)) =
      fun k c => ((directoryPages env db f sort limit k c).1.map (listed env db f),
        (directoryPages env db f sort limit k c).2) := by
    funext k c
    rw [list_eq limit k]
  rw [Walks, hpages, directory]
  refine Keyset.Walk.map_iff_of_injOn (P := fun c => c ∈ db.contractors) ?_ ?_ ?_
  · exact fun a b ha hb hab => eq_of_id_eq ha hb (congrArg PublicContractor.id hab)
  · exact fun c hc => mem_contractors (mem_rowsBy.mp hc)
  · exact fun k cursor c hc => mem_contractors (mem_rowsBy.mp (Keyset.mem_of_mem_pages hc))

/-- **Walks of the directory**, at every boundary. -/
theorem walks_iff (h : env.RoundTrips) :
    Walks env db f sort limit (directory env db f sort) ↔
      ∀ k, ∀ r ∈ (rowsBy env db f (orderingFor env db sort f))[
          (k + 1) * (clamp limit 1 maxPage).toNat - 1]?,
        (k + 1) * (clamp limit 1 maxPage).toNat <
          (rowsBy env db f (orderingFor env db sort f)).length →
        ∀ x ∈ rowsBy env db f (orderingFor env db sort f),
          accepts env (orderingFor env db sort f) (cursorAt env db sort f r) x = true ↔
            (orderingFor env db sort f).orderBy env r x = .lt := by
  rw [walks_directory_iff, directoryPages]
  refine Keyset.walk_iff_of_order (clamp_limit_pos limit) (passCursor_eq h) pairwise_rowsBy ?_ ?_
  · intro x y hxy hyx
    exact absurd hyx (by rw [Std.OrientedCmp.gt_of_lt hxy]; decide)
  · exact accepts_trans

/-- **Rows that all have the key** are walked completely. -/
theorem walks_of_located (h : env.RoundTrips)
    (hs : sort = .distance → f.near.isSome = true →
      ∀ c ∈ matching env db f, c.publicPoint.isSome = true) :
    Walks env db f sort limit (directory env db f sort) := by
  rw [walks_iff h]
  intro k r hr _ x hx
  have hr := mem_rowsBy.mp (List.mem_of_getElem? hr)
  have hx := mem_rowsBy.mp hx
  rcases hk : (orderingFor env db sort f).key with _ | key
  · rw [accepts_of_none hk, orderBy_of_none hk]
  · exact accepts_iff_of_some hk (isSome_key hk hs hr) (isSome_key hk hs hx)

/-- No cursor accepts a row without the key, and that of a row without it accepts none. -/
theorem isSome_of_accepts {key : Contractor → Option ℚ}
    (h : (orderingFor env db sort f).key = some key) {r x : Contractor}
    (hx : accepts env (orderingFor env db sort f) (cursorAt env db sort f r) x = true) :
    (key r).isSome = true ∧ (key x).isSome = true := by
  obtain ⟨a, ha, b, hb, -⟩ := (accepts_of_some h).mp hx
  exact ⟨Option.isSome_of_mem ha, Option.isSome_of_mem hb⟩

/-- **When the pages of the directory are the directory**: every contractor once and in order,
unless the order is by distance, more contractors match than a page shows, and one of them has
no point. -/
theorem directory_pages_iff (h : env.RoundTrips) (db : Db) (f : Filters) (sort : SortOrder)
    (limit : ℤ) :
    Walks env db f sort limit (directory env db f sort) ↔
      sort ≠ .distance ∨ f.near = none ∨
        (matching env db f).length ≤ (clamp limit 1 maxPage).toNat ∨
        ∀ c ∈ matching env db f, c.publicPoint.isSome = true := by
  have hpos := clamp_limit_pos limit
  have hlength : (rowsBy env db f (orderingFor env db sort f)).length = (matching env db f).length :=
    length_orderBy _ _
  generalize hL : (clamp limit 1 maxPage).toNat = L at hpos
  constructor
  · rw [walks_iff h, hL]
    intro hwalk
    by_contra! hno
    obtain ⟨rfl, hnear, hlong, c, hc, hpoint⟩ := hno
    have hkey : (orderingFor env db .distance f).key = some (distanceExpression env f) := by
      rw [orderingFor, if_pos (Option.isSome_iff_ne_none.mpr hnear)]
    have hnone : distanceExpression env f c = none := by
      rcases hp : c.publicPoint with _ | p
      · simp [distanceExpression, hp]
      · rw [hp] at hpoint
        exact absurd rfl hpoint
    set rows := rowsBy env db f (orderingFor env db .distance f) with hrows
    have hsorted : rows.Pairwise fun a b => (orderingFor env db .distance f).orderBy env a b = .lt :=
      pairwise_rowsBy
    have hbefore : L - 1 < rows.length := by omega
    have hafter : L < rows.length := by omega
    have hr : rows[(0 + 1) * L - 1]? = some rows[L - 1] := by
      rw [Nat.zero_add, Nat.one_mul, List.getElem?_eq_getElem]
    have haccepts := hwalk 0 _ hr (by omega)
    -- the row after the first page is accepted, so the last row of the page has a distance
    have hnext : (orderingFor env db .distance f).orderBy env rows[L - 1] rows[L] = .lt :=
      List.pairwise_iff_getElem.mp hsorted (L - 1) L (by omega) (by omega) (by omega)
    have hsome := (isSome_of_accepts hkey
      ((haccepts _ (List.getElem_mem _)).mpr hnext)).1
    obtain ⟨a, ha⟩ := Option.isSome_iff_exists.mp hsome
    -- then the contractor without one comes later, and is not accepted
    have hlast : (orderingFor env db .distance f).orderBy env rows[L - 1] c = .lt := by
      rw [orderBy_asc_eq_lt hkey (by rw [orderingFor, if_pos (Option.isSome_iff_ne_none.mpr hnear)])]
      exact Or.inl ⟨a, ha, by simp [hnone]⟩
    have hfalse := (isSome_of_accepts hkey ((haccepts c (mem_rowsBy.mpr hc)).mpr hlast)).2
    rw [hnone] at hfalse
    exact absurd hfalse (by simp)
  · rintro (hsort | hnear | hshort | hpoints)
    · exact walks_of_located h fun hd => absurd hd hsort
    · exact walks_of_located h fun _ hn => absurd hn (by simp [hnear])
    · rw [walks_iff h, hL]
      intro k r _ hk
      have : 1 * L ≤ (k + 1) * L := Nat.mul_le_mul_right L (by omega)
      omega
    · exact walks_of_located h fun _ _ => hpoints

end Walks

/-! ### Two contractors, one without a point -/

/-- A search about the origin. -/
def aboutOrigin : Filters where
  near := some ⟨0, 0, none⟩

/-- By name, one to a page, both are shown. -/
theorem directory_pages_iff_byName :
    Walks Search.Env.plain twoContractors aboutOrigin .name 1
      (directory Search.Env.plain twoContractors aboutOrigin .name) :=
  (directory_pages_iff Search.Env.plain_roundTrips twoContractors aboutOrigin .name 1).mpr
    (Or.inl (by decide))

/-- **A contractor without a point is lost**: by distance, one to a page, the page that ends on
the contractor with one is followed by an empty one. -/
theorem unlocated_lost :
    ¬Walks Search.Env.plain twoContractors aboutOrigin .distance 1
      (directory Search.Env.plain twoContractors aboutOrigin .distance) := by
  intro h
  have hfirst : (list Search.Env.plain twoContractors aboutOrigin .distance 1 none).nextCursor =
      some ⟨nearby.displayName, 2, some 2⟩ := by decide +kernel
  have hsecond : (list Search.Env.plain twoContractors aboutOrigin .distance 1
      (some ⟨nearby.displayName, 2, some 2⟩)).nextCursor = none := by decide +kernel
  have hwalk : Walks Search.Env.plain twoContractors aboutOrigin .distance 1
      ((list Search.Env.plain twoContractors aboutOrigin .distance 1 none).contractors ++
        (list Search.Env.plain twoContractors aboutOrigin .distance 1
          (some ⟨nearby.displayName, 2, some 2⟩)).contractors) :=
    .more (Prod.ext rfl hfirst) (passCursor_eq Search.Env.plain_roundTrips _)
      (.last (Prod.ext rfl hsecond))
  have hlen := congrArg List.length (h.unique hwalk)
  exact absurd hlen (by decide +kernel)

end Marketplace.Directory
