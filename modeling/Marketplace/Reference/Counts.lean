import Marketplace.Reference.Again

/-!
# Supply

A membership is always one of a ZIP-code area in a city (`Marketplace.Reference.Db.Nested`), whatever
is loaded, and in whatever order. What the counts of regions amount to after a refresh can therefore
be said without the order of its statements: a ZIP-code area counts its listings, a city those of the
areas in it, and a county nobody (`Marketplace.Reference.supply_exact`).
-/

namespace Marketplace.Reference

open Suggest (RegionKind RegionPlace)

variable {env : Env} {db db' : Db} {files : Files} {state : Text} {minShare : ℚ}
  {report : PlacesLoaded} {id : Uuid} {kind : RegionKind}

/-! ### What regions are -/

/-- There is a region of some kind with an identifier. -/
def Db.Has (db : Db) (kind : RegionKind) (id : Uuid) : Prop :=
  ∃ r ∈ db.regions, r.id = id ∧ r.kind = kind

/-- Two rows with one identifier are one row. -/
theorem Db.eq_of_id {r r' : Region} (hr : r ∈ db.regions) (hr' : r' ∈ db.regions)
    (h : r.id = r'.id) : r = r' :=
  List.inj_on_of_nodup_map db.numbered hr hr' h

/-- A region is of one kind. -/
theorem Db.Has.kind_eq (h : db.Has kind id) {r : Region} (hr : r ∈ db.regions) (hid : r.id = id) :
    r.kind = kind := by
  obtain ⟨r', hr', hid', hkind⟩ := h
  rw [db.eq_of_id hr hr' (hid.trans hid'.symm), hkind]

theorem Db.Has.map {f : Region → Region} (h : db.Has kind id) (hf : Lawful f)
    (hregions : db'.regions = db.regions.map f) : db'.Has kind id := by
  obtain ⟨r, hr, hid, hkind⟩ := h
  have hkey : (f r).kind = r.kind := congrArg Prod.fst (hf.key r)
  exact ⟨f r, hregions ▸ List.mem_map_of_mem hr, (hf.id r).trans hid, hkey.trans hkind⟩

theorem Loaded.has {batch : List Entry} (h : Loaded batch db db') (hhas : db.Has kind id) :
    db'.Has kind id := by
  obtain ⟨r, hr, hid, hkind⟩ := hhas
  exact ⟨_, h.smul_mem hr, hid, hkind⟩

/-- What has an identifier under a key is of the kind of the key. -/
theorem Db.has_of_idAt {k : RegionKind × Text} (h : db.idAt k = some id) : db.Has k.1 id := by
  obtain ⟨r, hr, rfl⟩ := Option.map_eq_some_iff.mp h
  rw [Db.findKey] at hr
  have hk : r.key = k := by simpa using List.find?_some hr
  exact ⟨r, List.mem_of_find?_eq_some hr, rfl, congrArg Prod.fst hk⟩

/-- **Memberships are those of ZIP-code areas in cities.** -/
def Db.Nested (db : Db) : Prop :=
  ∀ k ∈ db.places.map pairKey, db.Has .zcta k.1 ∧ db.Has .city k.2

theorem Db.Nested.of_has (h : db.Nested) (hplaces : db'.places = db.places)
    (hhas : ∀ kind id, db.Has kind id → db'.Has kind id) : db'.Nested := by
  intro k hk
  rw [hplaces] at hk
  exact ⟨hhas _ _ (h k hk).1, hhas _ _ (h k hk).2⟩

theorem Loaded.nested {batch : List Entry} (h : Loaded batch db db') (hnested : db.Nested) :
    db'.Nested :=
  hnested.of_has h.places fun _ _ => h.has

/-- The identifiers that are given back for the places are those of cities. -/
theorem has_of_lookup {countyIds : List (Text × Uuid)} {geoid : Text}
    (hknown : ∀ item ∈ cityPlaces env files state countyIds,
      (placeEntry item).1 ∈ db.regions.map Region.key)
    (h : (idsOf db (cityPlaces env files state countyIds)).lookup geoid = some id) :
    db.Has .city id := by
  obtain ⟨before, after, hids, -⟩ := List.lookup_eq_some_iff.mp h
  have hmem : (geoid, id) ∈ idsOf db (cityPlaces env files state countyIds) := by
    rw [hids]
    exact List.mem_append_right _ List.mem_cons_self
  rw [idsOf, List.mem_reverse, List.mem_map] at hmem
  obtain ⟨item, hitem, he⟩ := hmem
  obtain ⟨id', hid'⟩ := Db.exists_idAt (hknown item hitem)
  obtain ⟨row, -, hrow⟩ := List.mem_filterMap.mp hitem
  obtain ⟨point, -, rfl⟩ := Option.map_eq_some_iff.mp hrow
  have hid : id' = id := by
    rw [← (Prod.mk.inj he).2]
    exact (congrArg (fun o : Option Uuid => o.getD 0) hid').symm
  exact hid ▸ Db.has_of_idAt hid'

/-- A share that is put in is one of a ZIP-code area in a city. -/
theorem PlacesRun.has_of_member (run : PlacesRun env files state minShare db report db') {share : Share}
    (h : share ∈ membersIn env files minShare run.mid run.placeIds) :
    run.mid.Has .zcta share.regionId ∧ run.mid.Has .city share.placeId := by
  obtain ⟨row, -, hrow⟩ := List.mem_filterMap.mp (List.mem_of_mem_filter h)
  simp only [shareOf, Option.bind_eq_bind, Option.bind_eq_some_iff] at hrow
  obtain ⟨regionId, hregion, placeId, hplace, part, -, area, -, he⟩ := hrow
  cases he
  refine ⟨Db.has_of_idAt hregion, ?_⟩
  rw [run.placeIds_eq] at hplace
  refine has_of_lookup (fun item hitem => ?_) hplace
  exact run.loaded.mem_keys.mpr
    (Or.inr (List.mem_map_of_mem (List.mem_append_right _ (List.mem_map_of_mem hitem))))

/-- **A load of places keeps memberships to areas in cities.** -/
theorem PlacesRun.nested_linked (run : PlacesRun env files state minShare db report db')
    (h : db.Nested) : run.linked.Nested := by
  have hhas : ∀ kind id, run.mid.Has kind id → run.linked.Has kind id := by
    intro kind id
    rw [Db.Has, Db.Has, run.same.regions]
    exact fun h => h
  intro k hk
  rw [run.places] at hk
  rcases (Upsert.mem_keys_load (fun _ _ => rfl) fun _ _ => rfl).mp hk with hold | hnew
  · have hmid := run.loaded.nested h k hold
    exact ⟨hhas _ _ hmid.1, hhas _ _ hmid.2⟩
  · rw [List.map_map] at hnew
    obtain ⟨share, hshare, rfl⟩ := List.mem_map.mp hnew
    have hmember := run.has_of_member hshare
    exact ⟨hhas _ _ hmember.1, hhas _ _ hmember.2⟩

/-- Changing names and counts moves no region. -/
theorem Db.Nested.mapRegions {f : Region → Region} (h : db.Nested) (hf : Lawful f) :
    (db.mapRegions f hf).Nested :=
  h.of_has rfl fun _ _ hhas => hhas.map hf rfl

theorem Db.Nested.refresh (h : db.Nested) : db.refreshRegionSupply.2.Nested :=
  ((h.mapRegions Db.lawful_uncount).mapRegions (Db.lawful_countListings _)).mapRegions
    (Db.lawful_countMembers _ _)

theorem Db.Nested.clear (h : db.Nested) : db.clearRedundantZctaNames.2.Nested :=
  h.mapRegions db.lawful_clearName

/-! ### What the counts are -/

/-- **The counts are what the listings and the memberships say.** -/
structure Db.Exact (db : Db) : Prop where
  /-- A ZIP-code area has the listings with its code. -/
  zcta : ∀ z ∈ db.regions, z.kind = .zcta → z.contractorCount = db.listingsAt z.code
  /-- A city has those of the areas that are in it. -/
  city : ∀ p ∈ db.regions, p.kind = .city → p.contractorCount =
    ((db.places.filter fun rp => rp.placeId = p.id).map fun rp =>
      (db.findId rp.regionId).elim 0 fun z => db.listingsAt z.code).sum
  /-- Nobody is counted at a county. -/
  other : ∀ r ∈ db.regions, r.kind ≠ .zcta → r.kind ≠ .city → r.contractorCount = 0

namespace Db

/-- A place that nothing is in. -/
theorem places_of_not_city (h : db.Nested) {r : Region} (hr : r ∈ db.regions) (hkind : r.kind ≠ .city) :
    (db.places.filter fun rp => rp.placeId = r.id) = [] := by
  refine List.filter_eq_nil_iff.mpr fun rp hrp hplace => hkind ?_
  have hcity := (h (pairKey rp) (List.mem_map_of_mem hrp)).2
  exact hcity.kind_eq hr (of_decide_eq_true hplace).symm

theorem supply_of_not_city (h : db.Nested) {r : Region} (hr : r ∈ db.regions)
    (hkind : r.kind ≠ .city) : db.supply r = db.direct r := by
  rw [supply, membersOf, places_of_not_city h hr hkind]
  rfl

/-- What is counted at the areas of some memberships, one membership after the other. -/
theorem sum_members {g : RegionPlace → Option Region} {f f' : Region → ℕ} {l : List RegionPlace}
    (h : ∀ rp ∈ l, ∀ z, g rp = some z → f z = f' z) :
    ((l.filterMap g).map f).sum = (l.map fun rp => (g rp).elim 0 f').sum := by
  induction l with
  | nil => rfl
  | cons rp l ih =>
    have hrest := ih fun rp' hrp' => h rp' (List.mem_cons_of_mem _ hrp')
    rw [List.map_cons, List.sum_cons, ← hrest]
    cases hg : g rp with
    | none =>
      rw [List.filterMap_cons_none hg]
      exact (Nat.zero_add _).symm
    | some z =>
      rw [List.filterMap_cons_some hg, List.map_cons, List.sum_cons, h rp List.mem_cons_self z hg]
      rfl

theorem supply_of_city (h : db.Nested) {p : Region} (hkind : p.kind = .city) : db.supply p =
    ((db.places.filter fun rp => rp.placeId = p.id).map fun rp =>
      (db.findId rp.regionId).elim 0 fun z => db.listingsAt z.code).sum := by
  have hsum : ((membersOf db.regions db.places p.id).map db.direct).sum =
      ((db.places.filter fun rp => rp.placeId = p.id).map fun rp =>
        (db.findId rp.regionId).elim 0 fun z => db.listingsAt z.code).sum := by
    refine sum_members fun rp hrp z hz => ?_
    -- the area of a membership is a ZIP-code area, and counts its listings
    have hzcta := (h (pairKey rp) (List.mem_map_of_mem (List.mem_of_mem_filter hrp))).1
    have hid : z.id = rp.regionId := by simpa using List.find?_some hz
    have hkind := hzcta.kind_eq (List.mem_of_find?_eq_some hz) hid
    rw [direct, if_pos hkind]
  rw [← hsum, supply]
  split
  · rename_i hempty
    rw [List.isEmpty_iff.mp hempty, direct, if_neg (by rw [hkind]; decide)]
    rfl
  · rfl

/-- **A refresh makes the counts exact.** -/
theorem Nested.exact_refresh (h : db.Nested) : db.refreshRegionSupply.2.Exact := by
  have hregions := db.refreshRegionSupply_regions
  have hrow : ∀ {r}, r ∈ db.refreshRegionSupply.2.regions →
      ∃ r₀ ∈ db.regions, r = counted (db.supply r₀) r₀ := by
    intro r hr
    rw [hregions] at hr
    obtain ⟨r₀, hr₀, rfl⟩ := List.mem_map.mp hr
    exact ⟨r₀, hr₀, rfl⟩
  constructor
  · intro z hz hkind
    obtain ⟨z₀, hz₀, rfl⟩ := hrow hz
    have hkind₀ : z₀.kind = .zcta := hkind
    show db.supply z₀ = db.listingsAt z₀.code
    rw [supply_of_not_city h hz₀ (by rw [hkind₀]; decide), direct, if_pos hkind₀]
  · intro p hp hkind
    obtain ⟨p₀, hp₀, rfl⟩ := hrow hp
    show db.supply p₀ = _
    rw [supply_of_city h (show p₀.kind = .city from hkind)]
    refine congrArg List.sum (List.map_congr_left fun rp _ => ?_)
    show _ = (db.refreshRegionSupply.2.regions.find? _).elim 0 _
    rw [hregions, List.find?_map, findId]
    show _ = ((db.regions.find? fun z => z.id = rp.regionId).map _).elim 0 _
    cases db.regions.find? fun z => z.id = rp.regionId <;> rfl
  · intro r hr hzcta hcity
    obtain ⟨r₀, hr₀, rfl⟩ := hrow hr
    show db.supply r₀ = 0
    rw [supply_of_not_city h hr₀ hcity]
    exact if_neg hzcta

end Db

/-! ### Whole runs -/

/-- Some commands, one after the other. -/
def runAll (env : Env) (commands : List Command) (db : Db) : Db :=
  commands.foldl (fun db command => command.run env db) db

theorem runAll_concat (commands : List Command) (command : Command) (db : Db) :
    runAll env (commands ++ [command]) db = command.run env (runAll env commands db) := by
  rw [runAll, List.foldl_append]
  rfl

/-- **Every command keeps memberships to areas in cities.** -/
theorem nested_run (command : Command) (h : db.Nested) : (command.run env db).Nested := by
  cases command with
  | loadRegions rows source =>
    rw [Command.run]
    rcases hload : loadRegionsInner env rows source db with e | ⟨n, db'⟩
    · exact h
    · exact (loadRegionsInner_loaded hload).nested h
  | loadPlaces files state minShare =>
    rw [Command.run]
    rcases hload : loadPlacesInner env files state minShare db with e | ⟨report, db'⟩
    · exact h
    · obtain ⟨run⟩ := exists_placesRun hload
      have hresult := (run.nested_linked h).clear.refresh
      rwa [← run.result] at hresult
  | refreshSupply => exact h.refresh
  | changeListings contractors => exact h

theorem nested_runAll (commands : List Command) (h : db.Nested) : (runAll env commands db).Nested := by
  induction commands generalizing db with
  | nil => exact h
  | cons command commands ih => exact ih (nested_run command h)

theorem Db.nested_empty : Db.empty.Nested := nofun

/-- The command counts the listings, and goes through. -/
def Command.Counts (env : Env) (db : Db) : Command → Prop
  | .refreshSupply => True
  | .loadPlaces files state minShare => ∃ r, loadPlacesInner env files state minShare db = .ok r
  | _ => False

/-- **The supply is exact whenever it has been counted**: after any commands – files loaded and loaded
again, listings that come, go and move –, a refresh or a load of places that goes through leaves every
ZIP-code area with the number of the listings in it, every city with the sum over the areas that are
in it, and the counties with none. -/
theorem supply_exact (commands : List Command) {command : Command}
    (h : command.Counts env (runAll env commands .empty)) :
    (runAll env (commands ++ [command]) .empty).Exact := by
  have hnested := @nested_runAll env _ commands Db.nested_empty
  rw [runAll_concat]
  generalize runAll env commands .empty = db at h hnested
  cases command with
  | loadRegions | changeListings => exact h.elim
  | refreshSupply => exact hnested.exact_refresh
  | loadPlaces files state minShare =>
    obtain ⟨⟨report, db'⟩, hload⟩ := h
    obtain ⟨run⟩ := exists_placesRun hload
    rw [Command.run, hload]
    show db'.Exact
    have hresult := (run.nested_linked hnested).clear.exact_refresh
    rwa [← run.result] at hresult

/-- Two listings in the city, of which one has moved into it. -/
theorem supply_exact_burbank : ∃ db, db = runAll .plain
      ([.loadRegions [.ok .burbank] "hand".toList, .loadPlaces .burbank "CA".toList (1 / 100),
        .changeListings [⟨none, some "91506".toList⟩, ⟨some "91506".toList, some "90026".toList⟩]] ++
        [.refreshSupply]) .empty ∧
    db.regions.map Region.contractorCount = [2, 0, 2] ∧ db.Exact :=
  ⟨_, rfl, by decide +kernel, supply_exact _ trivial⟩

end Marketplace.Reference
