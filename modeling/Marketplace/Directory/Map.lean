import Marketplace.Directory.Pagination

/-!
# The map of the directory

The list and the map are asked with one query string. `Marketplace.Directory.AllPages` is the
list followed to its end, and `Marketplace.Directory.list_map_agree` says that the map shows the
located contractors among all of its pages, the best of them where there are too many.

By distance the list may lose contractors, but those it loses have no point, so that the map
would not have shown them either: the walk by distance shows every located contractor
(`Marketplace.Directory.exists_walk`).
-/

namespace Marketplace.Directory

open Search Sql

variable (env : Search.Env) (db : Db)

/-! ### What is to agree -/

/-- The list, asked with a cursor in place of that of the query string; where it is refused it
shows nothing. -/
def listPage (raw : RawQuery) (_ : ℕ) (cursor : Option Text) : List PublicContractor × Option Text :=
  match listHandler env db { raw with cursor := cursor } with
  | .ok r => (r.contractors, r.nextCursor)
  | .error _ => ([], none)

/-- **All pages of the list**, from the first one on, put together. -/
def AllPages (raw : RawQuery) (xs : List PublicContractor) : Prop :=
  Keyset.Walk (listPage env db raw) some 0 none xs

/-- The order of the map, of contractors as they are shown. -/
def bestRow : PublicContractor → PublicContractor → Ordering :=
  compareLex (descNullsFirst PublicContractor.qualityScore)
    (compareLex (fun a b => collation env a.displayName b.displayName) (asc PublicContractor.id))

/-- **The list and the map agree** about a query string: they refuse it alike, or the map shows
the located rows among all pages of the list, in its own order and up to its limit, and says
whether there are more. -/
def ListMapAgree (raw : RawQuery) : Prop :=
  match mapHandler env db raw with
  | .error e => listHandler env db raw = .error e
  | .ok m => ∃ xs, AllPages env db raw xs ∧
      let located := Sql.orderBy (bestRow env) (xs.filter fun c => c.lat.isSome)
      m.points = (located.take maxMapPoints.toNat).filterMap PublicContractor.pin ∧
        m.truncated = decide (maxMapPoints.toNat < located.length)

variable {env db} {f : Filters} {sort : SortOrder} {limit : ℤ}

/-! ### The walk of the list -/

instance transCmp_bestFirst (env : Search.Env) : Std.TransCmp (bestFirst env) :=
  inferInstanceAs (Std.TransCmp (compareLex (desc Contractor.qualityScore) (byName env)))

/-- The located rows of a page, as rows. -/
def located (c : Contractor) : Bool := c.publicPoint.isSome

/-- By distance, the located contractors come first. -/
theorem pairwise_located (hnear : f.near.isSome = true) :
    (rowsBy env db f (orderingFor env db .distance f)).Pairwise fun a b =>
      located b = true → located a = true := by
  have hkey : (orderingFor env db .distance f).key = some (distanceExpression env f) := by
    rw [orderingFor, if_pos hnear]
  have hd : (orderingFor env db .distance f).descending = false := by
    rw [orderingFor, if_pos hnear]
  obtain ⟨n, hn⟩ := Option.isSome_iff_exists.mp hnear
  have hsome : ∀ c : Contractor, (distanceExpression env f c).isSome = located c := by
    intro c
    rw [distanceExpression, hn, Option.bind_some, Option.isSome_map, located]
  refine pairwise_rowsBy.imp fun {a b} hlt hb => ?_
  rw [orderBy_asc_eq_lt hkey hd] at hlt
  rcases hlt with ⟨x, hx, -⟩ | ⟨heq, -⟩
  · rw [← hsome, hx]
    rfl
  · rw [← hsome, heq, hsome, hb]

/-- What the cursor of a row accepts by distance: located rows that come later, if the row is
located itself. -/
theorem accepts_distance (hnear : f.near.isSome = true) {r x : Contractor} :
    accepts env (orderingFor env db .distance f) (cursorAt env db .distance f r) x = true ↔
      located r = true ∧ located x = true ∧
        (orderingFor env db .distance f).orderBy env r x = .lt := by
  have hkey : (orderingFor env db .distance f).key = some (distanceExpression env f) := by
    rw [orderingFor, if_pos hnear]
  obtain ⟨n, hn⟩ := Option.isSome_iff_exists.mp hnear
  have hsome : ∀ c : Contractor, (distanceExpression env f c).isSome = located c := by
    intro c
    rw [distanceExpression, hn, Option.bind_some, Option.isSome_map, located]
  rw [← hsome r, ← hsome x]
  constructor
  · intro hx
    obtain ⟨hr, hx'⟩ := isSome_of_accepts hkey hx
    exact ⟨hr, hx', (accepts_iff_of_some hkey hr hx').mp hx⟩
  · rintro ⟨hr, hx, hlt⟩
    exact (accepts_iff_of_some hkey hr hx).mpr hlt

/-- **The list by distance can be walked**: the walk shows the located rows, and others only
on the first page. -/
theorem exists_walk_distance (h : env.RoundTrips) (hnear : f.near.isSome = true) (limit : ℤ) :
    ∃ S, Keyset.Walk (directoryPages env db f .distance limit) (passCursor env) 0 none S ∧
      S.filter located =
        (rowsBy env db f (orderingFor env db .distance f)).filter located := by
  have hpos := clamp_limit_pos limit
  rw [directoryPages]
  have hsorted : (rowsBy env db f (orderingFor env db .distance f)).Pairwise fun a b =>
      (orderingFor env db .distance f).orderBy env a b = .lt := pairwise_rowsBy
  have hlocated : (rowsBy env db f (orderingFor env db .distance f)).Pairwise fun a b =>
      located b = true → located a = true := pairwise_located hnear
  generalize rowsBy env db f (orderingFor env db .distance f) = D at hsorted hlocated ⊢
  generalize (clamp limit 1 maxPage).toNat = L at hpos ⊢
  rcases Nat.lt_or_ge (D.filter located).length L with hfew | hmany
  swap
  · -- every page ends on a located row
    refine ⟨D.filter located, Keyset.walk_of_keyed hpos (passCursor_eq h) hsorted ?_ hlocated
      ?_ hmany, by rw [List.filter_filter]; simp⟩
    · intro x y hxy hyx
      exact absurd hyx (by rw [Std.OrientedCmp.gt_of_lt hxy]; decide)
    · intro r _ hr x _
      rw [accepts_distance hnear]
      simp [hr]
  rcases Nat.lt_or_ge L D.length with hlong | hshort
  swap
  · refine ⟨D, Keyset.Walk.last ?_, rfl⟩
    rw [Keyset.pages, Keyset.found, Keyset.page_of_le _ hshort]
  -- the first page ends on a row without a point, and is the last to show any
  have hsplit := Keyset.filter_append_filter_not hlocated
  obtain ⟨r, hr⟩ : ∃ r, D[L - 1]? = some r := ⟨_, List.getElem?_eq_getElem (by omega)⟩
  have hrloc : located r = false := by
    rw [← hsplit, List.getElem?_append_right (by omega)] at hr
    simpa using (List.mem_filter.mp (List.mem_of_getElem? hr)).2
  have hnone : D.filter (accepts env (orderingFor env db .distance f)
      (cursorAt env db .distance f r)) = [] := by
    rw [List.filter_eq_nil_iff]
    intro x _ hx
    rw [accepts_distance hnear, hrloc] at hx
    exact absurd hx.1 (by simp)
  refine ⟨D.take L ++ [], Keyset.walk_of_first hpos (passCursor_eq h) hr hlong hnone (by simp), ?_⟩
  have htake : D.take L = D.filter located ++ (D.filter fun x => !located x).take
      (L - (D.filter located).length) := by
    conv_lhs => rw [← hsplit]
    rw [List.take_append, List.take_of_length_le (by omega)]
  have hrest : ((D.filter fun x => !located x).take (L - (D.filter located).length)).filter
      located = [] := by
    rw [List.filter_eq_nil_iff]
    intro x hx
    simpa using (List.mem_filter.mp (List.mem_of_mem_take hx)).2
  rw [List.append_nil, htake, List.filter_append, hrest, List.filter_filter]
  simp

/-- **The list can be walked**, and the walk shows every located contractor once. -/
theorem exists_walk (h : env.RoundTrips) (f : Filters) (sort : SortOrder) (limit : ℤ) :
    ∃ S, Keyset.Walk (directoryPages env db f sort limit) (passCursor env) 0 none S ∧
      S.filter located = (rowsBy env db f (orderingFor env db sort f)).filter located := by
  by_cases hs : sort = .distance ∧ f.near.isSome = true
  · obtain ⟨rfl, hnear⟩ := hs
    exact exists_walk_distance h hnear limit
  · refine ⟨_, walks_directory_iff.mp (walks_of_located h fun hd hn => ?_), rfl⟩
    exact absurd ⟨hd, hn⟩ hs

/-! ### The map -/

/-- The map fetches one row more than it shows. -/
theorem mapPoints_eq (f : Filters) :
    mapPoints env db f maxMapPoints =
      (((Sql.orderBy (bestFirst env) ((matching env db f).filter located)).take
          maxMapPoints.toNat).map (project env db f none),
        decide (maxMapPoints.toNat <
          (Sql.orderBy (bestFirst env) ((matching env db f).filter located)).length)) := by
  have hrows : (db.contractors.filter fun c =>
      ((predicate env db f (contractorsServing env db f.near) c).and
        (isNotNull c.publicPoint)).holds) = (matching env db f).filter located := by
    rw [matching, List.filter_filter]
    refine List.filter_congr fun c _ => ?_
    rw [Truth.holds_and, holds_isNotNull, Bool.and_comm, located]
  have hlimit : (clamp maxMapPoints 1 maxMapPoints).toNat = maxMapPoints.toNat := by decide
  rw [mapPoints, hrows, hlimit, orderBy_take, ← List.map_dropLast, List.length_map]
  have hcap := capped maxMapPoints.toNat
    (Sql.orderBy (bestFirst env) ((matching env db f).filter located))
  split at hcap
  next hlt =>
    rw [if_pos hlt, (Prod.mk.inj hcap).1, ← (Prod.mk.inj hcap).2]
  next hle =>
    rw [if_neg hle, (Prod.mk.inj hcap).1, ← (Prod.mk.inj hcap).2]

/-- The answer of the list to a query string with the cursor of a page. -/
theorem listPage_eq (h : env.RoundTrips) (hempty : env.base64 [] = []) {raw : RawQuery}
    {request : SearchRequest} (hr : resolve env db.vocabulary raw = .ok request) (k : ℕ)
    (cursor : Option Cursor) :
    listPage env db raw k (cursor.map (encodeCursor env)) =
      ((list env db request.filters request.sort request.limit cursor).contractors,
        (list env db request.filters request.sort request.limit cursor).nextCursor.map
          (encodeCursor env)) := by
  rw [listPage, listHandler, resolve_cursor h hempty hr]
  rfl

/-- The order of the map on rows and on what is shown of them. -/
theorem orderBy_listed (f : Filters) (rows : List Contractor) :
    Sql.orderBy (bestRow env) (rows.map (listed env db f)) =
      (Sql.orderBy (bestFirst env) rows).map (listed env db f) :=
  orderBy_map (fun _ _ => rfl) rows

/-- **The list and the map agree.** -/
theorem list_map_agree (h : env.RoundTrips) (hempty : env.base64 [] = []) (db : Db)
    (raw : RawQuery) : ListMapAgree env db raw := by
  rw [ListMapAgree]
  rcases hr : resolve env db.vocabulary raw with e | request
  · simp [mapHandler, listHandler, hr, bind, Except.bind]
  obtain ⟨S, hw, hS⟩ := @exists_walk _ db h request.filters request.sort request.limit
  have hmap : mapHandler env db raw = .ok
      ⟨(mapPoints env db request.filters maxMapPoints).1.filterMap PublicContractor.pin,
        (mapPoints env db request.filters maxMapPoints).2, maxMapPoints, request.ignored⟩ := by
    rw [mapHandler, hr]
    rfl
  rw [hmap]
  refine ⟨S.map (listed env db request.filters), ?_, ?_⟩
  · have hlist : Keyset.Walk (fun (_ : ℕ) c =>
        ((list env db request.filters request.sort request.limit c).contractors,
          (list env db request.filters request.sort request.limit c).nextCursor)) (passCursor env)
        0 none (S.map (listed env db request.filters)) := by
      have hpages : (fun (_ : ℕ) c =>
          ((list env db request.filters request.sort request.limit c).contractors,
            (list env db request.filters request.sort request.limit c).nextCursor)) =
          fun k c => ((directoryPages env db request.filters request.sort request.limit k c).1.map
              (listed env db request.filters),
            (directoryPages env db request.filters request.sort request.limit k c).2) := by
        funext k c
        rw [list_eq request.limit k]
      rw [hpages, Keyset.Walk.map_iff]
      exact ⟨S, hw, rfl⟩
    exact hlist.encode (listPage_eq h hempty hr) (passCursor_eq h)
  · have hlocated : ((S.map (listed env db request.filters)).filter fun c => c.lat.isSome) =
        (S.filter located).map (listed env db request.filters) := by
      rw [List.filter_map]
      congr 1
      refine List.filter_congr fun c _ => ?_
      exact Option.isSome_map
    have hperm : ((rowsBy env db request.filters
        (orderingFor env db request.sort request.filters)).filter located).Perm
        ((matching env db request.filters).filter located) := (orderBy_perm _ _).filter located
    have hkey : ∀ a ∈ (matching env db request.filters).filter located,
        ∀ b ∈ (matching env db request.filters).filter located,
        bestFirst env a b = .eq → a = b := fun a ha b hb hab =>
      eq_of_id_eq (mem_contractors (List.mem_of_mem_filter ha))
        (mem_contractors (List.mem_of_mem_filter hb))
        (asc_eq_eq.mp (compareLex_eq_eq.mp (compareLex_eq_eq.mp hab).2).2)
    dsimp only
    rw [hlocated, hS, orderBy_listed,
      ← orderBy_eq_of_perm hkey hperm.symm, mapPoints_eq, ← List.map_take,
      List.length_map, List.filterMap_map, List.filterMap_map]
    exact ⟨rfl, rfl⟩

end Marketplace.Directory
