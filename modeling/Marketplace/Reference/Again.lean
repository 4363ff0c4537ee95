import Marketplace.Reference.Supply

/-!
# Loading again

Loading the same files again changes nothing: neither a region, nor its identifier, nor a membership,
nor a count (`Marketplace.Reference.loadPlaces_again`). The names are what makes this more than an
upsert done twice: a load ends by clearing those that only repeat a city, and a deployment that loads
the ZIP-code areas again brings these names back before it clears them again
(`Marketplace.Reference.deploy_again`).
-/

namespace Marketplace.Reference

open Suggest (RegionKind RegionPlace)

variable {env : Env} {files : Files} {state : Text} {minShare : ℚ} {db db' : Db}
  {report : PlacesLoaded}

/-! ### What is put in -/

/-- The counties and places of one load, as entries. -/
def placeEntries (env : Env) (files : Files) (state : Text) (countyIds : List (Text × Uuid)) :
    List Entry :=
  (countyPlaces env files state).map placeEntry ++
    (cityPlaces env files state countyIds).map placeEntry

/-- The shares of one load that are big enough. -/
def membersIn (env : Env) (files : Files) (minShare : ℚ) (db : Db) (placeIds : List (Text × Uuid)) :
    List Share :=
  (sharesOf env files db.listZctaIds placeIds).filter fun share => !share.isSliver env minShare

theorem kind_of_readRows {delimiter : Char} {text : Text} {α : Type} {p : α → Prop}
    {parse : List (Text × ℕ) → List Text → Option α} (h : ∀ header row a, parse header row = some a → p a)
    {a : α} (ha : a ∈ readRows delimiter text parse) : p a := by
  obtain ⟨row, -, hrow⟩ := List.mem_filterMap.mp ha
  exact h _ row a hrow

/-- No ZIP-code area is loaded with the places. -/
theorem kind_ne_of_mem {countyIds : List (Text × Uuid)} {e : Entry}
    (he : e ∈ placeEntries env files state countyIds) : e.1.1 ≠ .zcta := by
  rcases List.mem_append.mp he with hcounty | hcity
  · obtain ⟨item, hitem, rfl⟩ := List.mem_map.mp hcounty
    have hkind : item.2.kind = .county := by
      refine kind_of_readRows (p := fun item => item.2.kind = .county) (fun header row a ha => ?_) hitem
      rw [parseCounty] at ha
      split at ha
      · cases ha
      · simp only [Option.bind_eq_bind, Option.bind_eq_some_iff] at ha
        obtain ⟨_, _, _, _, _, _, ha⟩ := ha
        cases ha
        rfl
    rw [placeEntry, hkind]
    exact nofun
  · obtain ⟨item, hitem, rfl⟩ := List.mem_map.mp hcity
    obtain ⟨row, -, hrow⟩ := List.mem_filterMap.mp hitem
    obtain ⟨point, -, rfl⟩ := Option.map_eq_some_iff.mp hrow
    exact nofun

theorem patch_of_zcta {countyIds : List (Text × Uuid)} {k : RegionKind × Text} (hk : k.1 = .zcta) :
    Upsert.patch (placeEntries env files state countyIds) k = 1 :=
  Upsert.patch_of_notMem fun _ he hek => kind_ne_of_mem he (hek ▸ hk)

/-! ### Identifiers -/

theorem Db.idAt_map {f : Region → Region} (hregions : db'.regions = db.regions.map f)
    (hid : ∀ r, (f r).id = r.id) (hkey : ∀ r, (f r).key = r.key) (k : RegionKind × Text) :
    db'.idAt k = db.idAt k := by
  rw [Db.idAt, Db.idAt, Db.findKey, Db.findKey, hregions, List.find?_map, Option.map_map]
  rw [show (fun r : Region => decide (r.key = k)) ∘ f = fun r => decide (r.key = k) from
    funext fun r => by rw [Function.comp_apply, hkey], show Region.id ∘ f = Region.id from funext hid]

theorem Db.exists_idAt {k : RegionKind × Text} (h : k ∈ db.regions.map Region.key) :
    ∃ id, db.idAt k = some id := by
  obtain ⟨r, hr, hk⟩ := List.mem_map.mp h
  obtain ⟨r', hr'⟩ : ∃ r', db.findKey k = some r' :=
    Option.isSome_iff_exists.mp (List.find?_isSome.mpr ⟨r, hr, decide_eq_true hk⟩)
  exact ⟨r'.id, by rw [Db.idAt, hr']; rfl⟩

theorem idsOf_congr {items : List (Text × Db.Place)}
    (h : ∀ item ∈ items, db'.idAt (placeEntry item).1 = db.idAt (placeEntry item).1) :
    idsOf db' items = idsOf db items := by
  rw [idsOf, idsOf]
  refine congrArg List.reverse (List.map_congr_left fun item hitem => ?_)
  rw [show db'.idAt (item.2.kind, item.2.code) = db.idAt (item.2.kind, item.2.code) from h item hitem]

/-- Regions that are known keep their identifiers, so that what was given back stays so. -/
theorem Loaded.idsOf_eq {batch : List Entry} (h : Loaded batch db db')
    {items : List (Text × Db.Place)}
    (hknown : ∀ item ∈ items, (placeEntry item).1 ∈ db.regions.map Region.key) :
    idsOf db' items = idsOf db items := by
  refine idsOf_congr fun item hitem => ?_
  obtain ⟨id, hid⟩ := Db.exists_idAt (hknown item hitem)
  rw [hid, h.idAt_of_known hid]

/-! ### One load of places -/

/-- **How a load of places goes**: the counties and places are put in, then the memberships. -/
structure PlacesRun (env : Env) (files : Files) (state : Text) (minShare : ℚ) (db : Db)
    (report : PlacesLoaded) (db' : Db) where
  /-- With the counties and the places. -/
  mid : Db
  /-- With the memberships, too. -/
  linked : Db
  countyIds : List (Text × Uuid)
  placeIds : List (Text × Uuid)
  loaded : Loaded (placeEntries env files state countyIds) db mid
  countyIds_eq : countyIds = idsOf mid (countyPlaces env files state)
  placeIds_eq : placeIds = idsOf mid (cityPlaces env files state countyIds)
  links : ∀ share ∈ membersIn env files minShare mid placeIds, mid.Links share
  same : SameRegions mid linked
  places : linked.places = putShares (membersIn env files minShare mid placeIds) mid.places
  result : db' = linked.clearRedundantZctaNames.2.refreshRegionSupply.2
  report_eq : report =
    { counties := (countyPlaces env files state).length
      places := (cityPlaces env files state countyIds).length
      memberships := (membersIn env files minShare mid placeIds).length
      sliversSkipped := ((sharesOf env files mid.listZctaIds placeIds).filter fun share =>
        share.isSliver env minShare).length
      placesWithoutPoint := (placeRows files state).length - (cityPlaces env files state countyIds).length
      namesSuperseded := linked.clearRedundantZctaNames.1
      withSupply := linked.clearRedundantZctaNames.2.refreshRegionSupply.1 }

/-- **A load that goes through goes so.** -/
theorem exists_placesRun (h : loadPlacesInner env files state minShare db = .ok (report, db')) :
    Nonempty (PlacesRun env files state minShare db report db') := by
  obtain ⟨⟨countyIds, db₁⟩, h₁, h⟩ := bind_eq_ok_iff.mp h
  obtain ⟨⟨placeIds, db₂⟩, h₂, h⟩ := bind_eq_ok_iff.mp h
  obtain ⟨db₃, h₃, h⟩ := bind_eq_ok_iff.mp h
  obtain ⟨hloaded₁, hids₁⟩ := upsertPlaces_loaded h₁
  obtain ⟨hloaded₂, hids₂⟩ := upsertPlaces_loaded h₂
  obtain ⟨hlinks, hsame, hplaces⟩ := linkShares_eq_ok h₃
  cases h
  refine ⟨⟨db₂, db₃, countyIds, placeIds, hloaded₁.append hloaded₂, ?_, hids₂, hlinks, hsame,
    hplaces, rfl, rfl⟩⟩
  -- the counties keep the identifiers while the places are put in
  refine hids₁.trans (hloaded₂.idsOf_eq fun item hitem => ?_).symm
  exact hloaded₁.mem_keys.mpr (Or.inr (List.mem_map_of_mem (List.mem_map_of_mem hitem)))

namespace PlacesRun

/-! ### The same load over what it has left -/

/-- **A table that differs from that of a load in counts, and in names that the load clears, only.** -/
structure Relabels (db : Db) (f : Region → Region) : Prop where
  id : ∀ r, (f r).id = r.id
  key : ∀ r, (f r).key = r.key
  eq : ∀ r ∈ db.regions, ∃ n, f r = Db.counted n r ∨ f r = Db.counted n (db.clearName r)

variable {f : Region → Region} {r : Region}

theorem Relabels.eq_of_kind (h : Relabels db f) (hr : r ∈ db.regions) (hkind : r.kind ≠ .zcta) :
    ∃ n, f r = Db.counted n r := by
  obtain ⟨n, he | he⟩ := h.eq r hr
  · exact ⟨n, he⟩
  · rw [Db.clearName_of_not fun hred => hkind (Db.kind_of_redundant hred)] at he
    exact ⟨n, he⟩

theorem clearName_counted {t : Db} {n : ℕ} (h : t.redundant (Db.counted n r) = db.redundant r) :
    t.clearName (Db.counted n r) = Db.counted n (db.clearName r) := by
  by_cases hred : db.redundant r = true
  · rw [Db.clearName_of_redundant hred, Db.clearName_of_redundant (h.trans hred)]
    rfl
  · rw [Db.clearName_of_not hred, Db.clearName_of_not (by rw [h]; exact hred)]

section Over

variable {t : Db} (hf : Relabels db f) (hregions : t.regions = db.regions.map f)
  (hplaces : t.places = db.places)

include hf hregions hplaces in
/-- What is redundant in the one table is in the other, if it has not been cleared already. -/
theorem redundant_of_counted {z' : Region} (hid : z'.id = r.id) (hkey : z'.key = r.key)
    (hname : z'.name = r.name) : t.redundant z' = db.redundant r := by
  refine Db.redundant_congr (f := fun p => if p ∈ db.regions then f p else p) hplaces ?_ ?_ ?_ ?_ hid
    hkey hname
  · rw [hregions]
    refine List.map_congr_left fun p hp => ?_
    show f p = if p ∈ db.regions then f p else p
    rw [if_pos hp]
  · intro p
    split
    · exact hf.id p
    · rfl
  · intro p
    split
    · exact hf.key p
    · rfl
  · intro p hcity
    split
    · rename_i hp
      obtain ⟨n, he⟩ := hf.eq_of_kind hp (by rw [hcity]; decide)
      rw [he]
      rfl
    · rfl

include hf hregions hplaces in
/-- **Clearing names makes the two tables the same**, but for the counts. -/
theorem clearName_relabelled (hr : r ∈ db.regions) :
    ∃ n, t.clearName (f r) = Db.counted n (db.clearName r) := by
  obtain ⟨n, he | he⟩ := hf.eq r hr
  · rw [he]
    exact ⟨n, clearName_counted (redundant_of_counted hf hregions hplaces rfl rfl rfl)⟩
  · rw [he]
    refine ⟨n, ?_⟩
    by_cases hred : db.redundant r = true
    · -- the name has been cleared already, and is a placeholder now
      rw [Db.clearName_of_redundant hred]
      exact Db.clearName_of_not (by rw [Db.not_redundant_of_placeholder rfl]; decide)
    · rw [Db.clearName_of_not hred]
      refine Db.clearName_of_not fun hred' => hred ?_
      exact (redundant_of_counted hf hregions hplaces rfl rfl rfl).symm.trans hred'

include hf hregions hplaces in
/-- The names that are cleared were cleared before. -/
theorem redundant_of_relabelled (hr : r ∈ db.regions) (h : t.redundant (f r) = true) :
    db.redundant r = true := by
  by_contra hnot
  obtain ⟨n, he | he⟩ := hf.eq r hr
  · rw [he, redundant_of_counted hf hregions hplaces rfl rfl rfl] at h
    exact hnot h
  · rw [he, Db.clearName_of_not hnot, redundant_of_counted hf hregions hplaces rfl rfl rfl] at h
    exact hnot h

include hf hregions hplaces in
/-- **What a load ends with makes the two tables the same.** -/
theorem ending_eq (hcontractors : t.contractors = db.contractors) :
    t.clearRedundantZctaNames.2.refreshRegionSupply.2.regions =
      db.clearRedundantZctaNames.2.refreshRegionSupply.2.regions := by
  rw [Db.refreshRegionSupply_regions, Db.refreshRegionSupply_regions]
  show (t.regions.map t.clearName).map _ = (db.regions.map db.clearName).map _
  rw [hregions, List.map_map, List.map_map, List.map_map]
  refine List.map_congr_left fun r hr => ?_
  obtain ⟨n, he⟩ := clearName_relabelled hf hregions hplaces hr
  -- the supply is that of the table before names were cleared, in both
  have hsupply : t.clearRedundantZctaNames.2.supply (t.clearName (f r)) = db.supply r := by
    rw [← Db.supply_congr hplaces hcontractors hregions hf.id hf.key]
    exact t.supply_clearName (f r)
  have hsupply' : db.clearRedundantZctaNames.2.supply (db.clearName r) = db.supply r :=
    db.supply_clearName r
  show Db.counted (t.clearRedundantZctaNames.2.supply (t.clearName (f r))) (t.clearName (f r)) =
    Db.counted (db.clearRedundantZctaNames.2.supply (db.clearName r)) (db.clearName r)
  rw [hsupply, hsupply', he, Db.counted_counted]

end Over

/-! ### The whole load again -/

variable {t : Db}

/-- A patch of the load leaves a row of its table as it is, whatever the count and the name are. -/
theorem patch_smul_relabelled (run : PlacesRun env files state minShare db report db')
    (hf : Relabels run.linked f) (hr : r ∈ run.mid.regions) :
    Upsert.patch (placeEntries env files state run.countyIds) r.key • f r = f r := by
  by_cases hkind : r.kind = .zcta
  · rw [patch_of_zcta hkind, one_smul]
  · obtain ⟨n, he⟩ := hf.eq_of_kind (run.same.regions ▸ hr) hkind
    rw [he, Patch.smul_counted]
    refine congrArg (Db.counted n) ?_
    rw [run.loaded.regions] at hr
    exact Upsert.patch_smul_of_mem Patch.mul_self (fun _ _ => Patch.key_smul) key_blank hr

/-- **The same load, over a table that differs from that of the first one in counts and in names
that it has cleared only**, gives what the first one gave. -/
theorem again (run : PlacesRun env files state minShare db report db')
    (hf : Relabels run.linked f) (hregions : t.regions = run.mid.regions.map f)
    (hplaces : t.places = run.linked.places) (hcontractors : t.contractors = run.linked.contractors) :
    ∃ k t', loadPlacesInner env files state minShare t = .ok ({ report with namesSuperseded := k }, t') ∧
      (t'.regions = db'.regions ∧ t'.places = db'.places ∧ t'.contractors = db'.contractors) ∧
      k ≤ report.namesSuperseded ∧
      ((∀ r ∈ run.mid.regions, ∃ n, f r = Db.counted n (run.linked.clearName r)) → k = 0) := by
  have hids : ∀ k, t.idAt k = run.mid.idAt k := Db.idAt_map hregions hf.id hf.key
  have hknown : ∀ e ∈ placeEntries env files state run.countyIds, e.1 ∈ t.regions.map Region.key := by
    intro e he
    rw [hregions, List.map_map, show Region.key ∘ f = Region.key from funext hf.key]
    exact run.loaded.mem_keys.mpr (Or.inr (List.mem_map_of_mem he))
  -- the counties are there, and keep their identifiers
  obtain ⟨⟨countyIds, db₁⟩, h₁⟩ := exists_upsertPlaces
    (fun e he => run.loaded.fits e (List.mem_append_left _ he)) t
  obtain ⟨hloaded₁, hids₁⟩ := upsertPlaces_loaded h₁
  obtain rfl : countyIds = run.countyIds := by
    rw [hids₁, run.countyIds_eq, ← idsOf_congr fun item _ => hids (placeEntry item).1]
    exact hloaded₁.idsOf_eq fun item hitem =>
      hknown _ (List.mem_append_left _ (List.mem_map_of_mem hitem))
  -- so are the places, and the regions are as they were
  obtain ⟨⟨placeIds, db₂⟩, h₂⟩ := exists_upsertPlaces
    (fun e he => run.loaded.fits e (List.mem_append_right _ he)) db₁
  obtain ⟨hloaded₂, hids₂⟩ := upsertPlaces_loaded h₂
  have hloaded : Loaded (placeEntries env files state run.countyIds) t db₂ := hloaded₁.append hloaded₂
  have hregions₂ : db₂.regions = t.regions := by
    rw [hloaded.regions, hregions, run.loaded.regions]
    exact Upsert.load_map_load Patch.mul_self (fun _ _ => Patch.key_smul) key_blank _ hf.key
      fun r hr _ => run.patch_smul_relabelled hf (run.loaded.regions ▸ hr)
  have hids' : ∀ k, db₂.idAt k = run.mid.idAt k := fun k => by
    rw [← hids, Db.idAt, Db.idAt, Db.findKey, Db.findKey, hregions₂]
  obtain rfl : placeIds = run.placeIds := by
    rw [hids₂, run.placeIds_eq]
    exact idsOf_congr fun item _ => hids' (placeEntry item).1
  have hzctas : db₂.listZctaIds = run.mid.listZctaIds := funext fun code => hids' (.zcta, code)
  have hmembers : membersIn env files minShare db₂ run.placeIds =
      membersIn env files minShare run.mid run.placeIds := by
    rw [membersIn, membersIn, hzctas]
  -- so are the memberships
  have hnumbers : db₂.regions.map Region.id = run.mid.regions.map Region.id := by
    rw [hregions₂, hregions, List.map_map, show Region.id ∘ f = Region.id from funext hf.id]
  have hlinks : ∀ share ∈ membersIn env files minShare db₂ run.placeIds, db₂.Links share := by
    intro share hshare
    rw [Db.Links, hnumbers]
    exact run.links share (hmembers ▸ hshare)
  obtain ⟨db₃, h₃⟩ := exists_linkShares hlinks
  obtain ⟨-, hsame₃, hplaces₃⟩ := linkShares_eq_ok h₃
  have hplaces' : db₃.places = run.linked.places := by
    rw [hplaces₃, hmembers, hloaded.places, hplaces, run.places, putShares_putShares]
  have hregions' : db₃.regions = run.linked.regions.map f := by
    rw [hsame₃.regions, hregions₂, hregions, run.same.regions]
  have hcontractors' : db₃.contractors = run.linked.contractors := by
    rw [hsame₃.contractors, hloaded.contractors, hcontractors]
  have hending := ending_eq hf hregions' hplaces' hcontractors'
  refine ⟨db₃.clearRedundantZctaNames.1, db₃.clearRedundantZctaNames.2.refreshRegionSupply.2,
    bind_eq_ok_iff.mpr ⟨_, h₁, bind_eq_ok_iff.mpr ⟨_, h₂, bind_eq_ok_iff.mpr ⟨_, h₃, ?_⟩⟩⟩,
    ⟨?_, ?_, ?_⟩, ?_, fun hcleared => ?_⟩
  · have hsupplied : db₃.clearRedundantZctaNames.2.refreshRegionSupply.1 =
        run.linked.clearRedundantZctaNames.2.refreshRegionSupply.1 :=
      congrArg (List.countP fun r : Region => 0 < r.contractorCount) hending
    have hreport := run.report_eq
    refine congrArg Except.ok (Prod.ext (PlacesLoaded.ext ?_ ?_ ?_ ?_ ?_ rfl ?_) rfl)
    · exact (congrArg PlacesLoaded.counties hreport).symm
    · exact (congrArg PlacesLoaded.places hreport).symm
    · exact (congrArg List.length hmembers).trans (congrArg PlacesLoaded.memberships hreport).symm
    · refine Eq.trans ?_ (congrArg PlacesLoaded.sliversSkipped hreport).symm
      rw [hzctas]
    · exact (congrArg PlacesLoaded.placesWithoutPoint hreport).symm
    · exact hsupplied.trans (congrArg PlacesLoaded.withSupply hreport).symm
  · rw [run.result]
    exact hending
  · rw [run.result]
    exact hplaces'
  · rw [run.result]
    exact hcontractors'
  · rw [run.report_eq]
    show db₃.regions.countP _ ≤ run.linked.regions.countP _
    rw [hregions', List.countP_map]
    exact List.countP_mono_left fun r hr h => redundant_of_relabelled hf hregions' hplaces' hr h
  · show db₃.regions.countP _ = 0
    rw [hregions', run.same.regions, List.countP_map, List.countP_eq_zero]
    intro r hr h
    obtain ⟨n, he⟩ := hcleared r hr
    have hred := redundant_of_relabelled hf hregions' hplaces' (run.same.regions ▸ hr) h
    -- what was redundant has a placeholder for a name by now
    rw [Function.comp_apply, he, Db.clearName_of_redundant hred,
      Db.not_redundant_of_placeholder rfl] at h
    cases h

/-- What the load makes of a row of its table. -/
def ending (run : PlacesRun env files state minShare db report db') (r : Region) : Region :=
  Db.counted (run.linked.clearRedundantZctaNames.2.supply (run.linked.clearName r))
    (run.linked.clearName r)

theorem regions_eq (run : PlacesRun env files state minShare db report db') :
    db'.regions = run.mid.regions.map run.ending := by
  have h := Db.refreshRegionSupply_regions run.linked.clearRedundantZctaNames.2
  rw [← run.result] at h
  rw [h, ← run.same.regions]
  exact List.map_map

/-- The load ends without touching the memberships. -/
theorem places_eq (run : PlacesRun env files state minShare db report db') :
    db'.places = run.linked.places :=
  (congrArg Db.places run.result).trans rfl

theorem contractors_eq (run : PlacesRun env files state minShare db report db') :
    db'.contractors = run.linked.contractors :=
  (congrArg Db.contractors run.result).trans rfl

theorem relabels_ending (run : PlacesRun env files state minShare db report db') :
    Relabels run.linked run.ending where
  id r := run.linked.lawful_clearName.id r
  key r := run.linked.lawful_clearName.key r
  eq _ _ := ⟨_, Or.inr rfl⟩

end PlacesRun

/-- **Loading the same places again changes nothing**: the regions keep their identifiers, names and
counts, the memberships are as they were, and what is reported is the same, but that no name is
superseded any more. -/
theorem loadPlaces_again (h : loadPlacesInner env files state minShare db = .ok (report, db')) :
    ∃ db'', loadPlacesInner env files state minShare db' =
        .ok ({ report with namesSuperseded := 0 }, db'') ∧
      db''.regions = db'.regions ∧ db''.places = db'.places := by
  obtain ⟨run⟩ := exists_placesRun h
  obtain ⟨k, db'', hok, ⟨hregions, hplaces', -⟩, -, hzero⟩ :=
    run.again run.relabels_ending run.regions_eq run.places_eq run.contractors_eq
  rw [hzero fun r _ => ⟨_, rfl⟩] at hok
  exact ⟨db'', hok, hregions, hplaces'⟩

/-- An environment in which numbers are whole. -/
def Env.plain : Env where
  parseFloat s := (Search.parseI64 s).map fun n => n
  float8 q := q
  makePoint lon lat := ⟨lat, lon⟩

/-- A file of the census, of lines of fields. -/
def Files.file (delimiter : Char) (rows : List (List String)) : Text :=
  ['\n'].intercalate (rows.map fun row => [delimiter].intercalate (row.map String.toList))

/-- A county, a city, and a ZIP-code area that is in it. -/
def Files.burbank : Files where
  counties := file '\t'
    [["USPS", "GEOID", "NAME", "INTPTLAT", "INTPTLONG"],
      ["CA", "06037", "Los Angeles", "34", "-118"]]
  placePoints := file '\t' [["GEOID", "INTPTLAT", "INTPTLONG"], ["0608954", "34", "-118"]]
  places := file '|'
    [["STATE", "STATEFP", "PLACEFP", "PLACENAME", "CLASSFP", "COUNTIES"],
      ["CA", "06", "08954", "Burbank city", "C1", "Los Angeles"]]
  zctaPlaces := file '|'
    [["GEOID_ZCTA5_20", "GEOID_PLACE_20", "AREALAND_PART", "AREALAND_ZCTA5_20"],
      ["91506", "0608954", "100", "100"]]

/-- The ZIP-code area, under the name of the city. -/
def RegionRow.burbank : RegionRow := ⟨"91506".toList, "Burbank".toList, 34, -118, none⟩

/-- The load of the city clears the name of the ZIP-code area. -/
theorem namesSuperseded_burbank :
    ((loadRegionsInner .plain [.ok .burbank] "hand".toList .empty >>= fun r =>
      loadPlacesInner .plain .burbank "CA".toList (1 / 100) r.2).toOption.map
        fun r => r.1.namesSuperseded) = some 1 := by decide +kernel

/-- The name of the ZIP-code area is superseded by the first load, and by that only. -/
theorem loadPlaces_again_burbank : ∃ db report db' db'',
    (∃ n, loadRegionsInner .plain [.ok .burbank] "hand".toList .empty = .ok (n, db)) ∧
      loadPlacesInner .plain .burbank "CA".toList (1 / 100) db = .ok (report, db') ∧
      report.namesSuperseded = 1 ∧
      loadPlacesInner .plain .burbank "CA".toList (1 / 100) db' =
        .ok ({ report with namesSuperseded := 0 }, db'') ∧ db''.regions = db'.regions := by
  have hrun := namesSuperseded_burbank
  rcases h : (loadRegionsInner .plain [.ok .burbank] "hand".toList .empty >>= fun r =>
    loadPlacesInner .plain .burbank "CA".toList (1 / 100) r.2) with e | ⟨report, db'⟩
  · rw [h] at hrun
    cases hrun
  rw [h] at hrun
  obtain ⟨⟨n, db⟩, hregions, hplaces⟩ := bind_eq_ok_iff.mp h
  obtain ⟨db'', hok, hsame, -⟩ := loadPlaces_again hplaces
  exact ⟨db, report, db', db'', ⟨n, hregions⟩, hplaces, Option.some.inj hrun, hok, hsame⟩

/-! ### Deployments -/

/-- **A deployment of regions**: the files of ZIP-code areas, each with its source, and then the
places. -/
def deploy (env : Env) (regionFiles : List (List (Except String RegionRow) × Text)) (files : Files)
    (state : Text) (minShare : ℚ) (db : Db) : Except AppError (PlacesLoaded × Db) := do
  let db ← regionFiles.foldlM
    (fun db file => (loadRegionsInner env file.1 file.2 db).map Prod.snd) db
  loadPlacesInner env files state minShare db

/-- A deployment of one file of ZIP-code areas. -/
theorem deploy_singleton {rows : List (Except String RegionRow)} {source : Text} :
    deploy env [(rows, source)] files state minShare db =
      loadRegionsInner env rows source db >>= fun r =>
        loadPlacesInner env files state minShare r.2 := by
  rw [deploy, List.foldlM_cons]
  cases loadRegionsInner env rows source db <;> rfl

/-- The entries of some files of ZIP-code areas. -/
def regionEntries (env : Env) (regionFiles : List (List (Except String RegionRow) × Text)) :
    List Entry :=
  regionFiles.flatMap fun file => zctaEntries env file.2 file.1

theorem kind_of_mem_regionEntries {regionFiles : List (List (Except String RegionRow) × Text)}
    {e : Entry} (he : e ∈ regionEntries env regionFiles) : e.1.1 = .zcta := by
  obtain ⟨file, -, hmem⟩ := List.mem_flatMap.mp he
  obtain ⟨row, -, hrow⟩ := List.mem_filterMap.mp hmem
  cases row with
  | error => cases hrow
  | ok row =>
    cases hrow
    rfl

theorem regionFiles_loaded {regionFiles : List (List (Except String RegionRow) × Text)}
    (h : regionFiles.foldlM
      (fun db file => (loadRegionsInner env file.1 file.2 db).map Prod.snd) db = .ok db') :
    Loaded (regionEntries env regionFiles) db db' := by
  induction regionFiles generalizing db with
  | nil =>
    cases h
    exact .nil _
  | cons file regionFiles ih =>
    rw [List.foldlM_cons] at h
    obtain ⟨db₁, h₁, hrest⟩ := bind_eq_ok_iff.mp h
    obtain ⟨⟨n, db₂⟩, h₂, rfl⟩ := map_eq_ok_iff.mp h₁
    exact (loadRegionsInner_loaded h₂).append (ih hrest)

/-- Files that have been loaded into one database load into every one. -/
theorem exists_regionFiles {regionFiles : List (List (Except String RegionRow) × Text)}
    (h : regionFiles.foldlM
      (fun db file => (loadRegionsInner env file.1 file.2 db).map Prod.snd) db = .ok db')
    (other : Db) : ∃ other', regionFiles.foldlM
      (fun db file => (loadRegionsInner env file.1 file.2 db).map Prod.snd) other = .ok other' := by
  induction regionFiles generalizing db other with
  | nil => exact ⟨other, rfl⟩
  | cons file regionFiles ih =>
    rw [List.foldlM_cons] at h
    obtain ⟨db₁, h₁, hrest⟩ := bind_eq_ok_iff.mp h
    obtain ⟨⟨n, db₂⟩, h₂, -⟩ := map_eq_ok_iff.mp h₁
    obtain ⟨⟨m, other₁⟩, hother⟩ := exists_loadRegions h₂ other 0
    obtain ⟨other', hother'⟩ := ih hrest other₁
    refine ⟨other', ?_⟩
    rw [List.foldlM_cons, show loadRegionsInner env file.1 file.2 other = .ok (m, other₁) from hother]
    exact hother'

/-- The names that a file brings back are those that were there before they were cleared. -/
theorem smul_clearName {p : Patch} {r : Region} (hp : p • r = r) (n : ℕ) :
    ∃ m, p • Db.counted n (db.clearName r) = Db.counted m r ∨
      p • Db.counted n (db.clearName r) = Db.counted m (db.clearName r) := by
  by_cases hred : db.redundant r = true
  · rw [Db.clearName_of_redundant hred, Patch.smul_counted]
    have hsmul : p • ({ r with name := r.code } : Region) =
        { r with name := p.name.getD r.code } := by
      -- every other column is as the patch leaves it in `r`
      have hcolumns : ({ p • r with name := p.name.getD r.code } : Region) =
          { r with name := p.name.getD r.code } := by rw [hp]
      exact hcolumns
    rw [hsmul]
    cases hname : p.name with
    | none => exact ⟨n, Or.inr rfl⟩
    | some name =>
      refine ⟨n, Or.inl (congrArg (Db.counted n) (Region.ext rfl rfl rfl ?_ rfl rfl rfl rfl rfl rfl))⟩
      rw [← hp, Patch.name_smul, hname]
      rfl
  · rw [Db.clearName_of_not hred, Patch.smul_counted, hp]
    exact ⟨n, Or.inl rfl⟩

/-- **Deploying the same files again changes nothing**, although the files bring back names which the
load of the places then clears again. -/
theorem deploy_again {regionFiles : List (List (Except String RegionRow) × Text)}
    (h : deploy env regionFiles files state minShare db = .ok (report, db')) :
    ∃ k db'', deploy env regionFiles files state minShare db' =
        .ok ({ report with namesSuperseded := k }, db'') ∧ k ≤ report.namesSuperseded ∧
      db''.regions = db'.regions ∧ db''.places = db'.places := by
  obtain ⟨db₁, h₁, hplaces⟩ := bind_eq_ok_iff.mp h
  obtain ⟨run⟩ := exists_placesRun hplaces
  obtain ⟨t, ht⟩ := exists_regionFiles h₁ db'
  have hzctas := regionFiles_loaded h₁
  have hagain := regionFiles_loaded ht
  have hkeys : ∀ r, (run.ending r).key = r.key := run.relabels_ending.key
  -- the files find all their areas, and patch them
  have hregions : t.regions = run.mid.regions.map fun r =>
      Upsert.patch (regionEntries env regionFiles) r.key • run.ending r := by
    have hknown : ∀ e ∈ regionEntries env regionFiles, e.1 ∈ db'.regions.map Region.key := by
      intro e he
      rw [run.regions_eq, List.map_map, show Region.key ∘ run.ending = Region.key from funext hkeys]
      exact run.loaded.mem_keys.mpr (Or.inl (hzctas.mem_keys.mpr (Or.inr (List.mem_map_of_mem he))))
    rw [hagain.regions, Upsert.load_of_known (fun _ _ => Patch.key_smul) key_blank hknown,
      run.regions_eq, List.map_map]
    refine List.map_congr_left fun r _ => ?_
    rw [Function.comp_apply, hkeys]
  have hf : PlacesRun.Relabels run.linked fun r =>
      Upsert.patch (regionEntries env regionFiles) r.key • run.ending r := by
    refine ⟨run.relabels_ending.id, hkeys, fun r hr => ?_⟩
    by_cases hkind : r.key.1 = .zcta
    · -- the row is as the files leave it, since the load of the places does not touch it
      have hmid : r ∈ run.mid.regions := run.same.regions ▸ hr
      refine smul_clearName ?_ _
      have hall := hzctas.append run.loaded
      rw [hall.regions] at hmid
      have hsame := Upsert.patch_smul_of_mem Patch.mul_self (fun _ _ => Patch.key_smul) key_blank hmid
      rwa [Upsert.patch_append, patch_of_zcta hkind, one_mul] at hsame
    · have hsame : Upsert.patch (regionEntries env regionFiles) r.key • run.ending r =
          run.ending r := by
        rw [Upsert.patch_of_notMem fun _ he hek => hkind ?_, one_smul]
        rw [← hek]
        exact kind_of_mem_regionEntries he
      exact ⟨_, Or.inr hsame⟩
  obtain ⟨k, db'', hok, ⟨hregions', hplaces', -⟩, hle, -⟩ := run.again hf hregions
    (hagain.places.trans run.places_eq) (hagain.contractors.trans run.contractors_eq)
  exact ⟨k, db'', bind_eq_ok_iff.mpr ⟨t, ht, hok⟩, hle, hregions', hplaces'⟩

/-- The file brings the name of the city back, and the load clears it again. -/
theorem deploy_again_burbank : ∃ report db' k db'',
    deploy .plain [([.ok .burbank], "hand".toList)] .burbank "CA".toList (1 / 100) .empty =
        .ok (report, db') ∧ report.namesSuperseded = 1 ∧
      deploy .plain [([.ok .burbank], "hand".toList)] .burbank "CA".toList (1 / 100) db' =
        .ok ({ report with namesSuperseded := k }, db'') ∧ k ≤ 1 ∧ db''.regions = db'.regions := by
  have hrun := namesSuperseded_burbank
  rw [← deploy_singleton] at hrun
  rcases h : deploy .plain [([.ok .burbank], "hand".toList)] .burbank "CA".toList (1 / 100) .empty with
    e | ⟨report, db'⟩
  · rw [h] at hrun
    cases hrun
  rw [h] at hrun
  have hnames : report.namesSuperseded = 1 := Option.some.inj hrun
  obtain ⟨k, db'', hok, hle, hregions, -⟩ := deploy_again h
  exact ⟨report, db', k, db'', rfl, hnames, hok, hnames ▸ hle, hregions⟩

end Marketplace.Reference
