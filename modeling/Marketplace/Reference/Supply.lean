import Marketplace.Reference.Batches

/-!
# What a load ends with

The counts of regions come from three statements, of which each reads what the one before it has
written. What they amount to is one count for each region, which depends on the listings, on the
memberships, and on what the regions are, but neither on their names nor on any count before
(`Marketplace.Reference.refreshRegionSupply_regions`).
-/

namespace Marketplace.Reference

open Suggest (RegionKind RegionPlace)

variable {db db' : Db} {r : Region}

/-! ### Counts -/

namespace Db

/-- The listings that are counted at a region itself. -/
def direct (db : Db) (r : Region) : ℕ := if r.kind = .zcta then db.listingsAt r.code else 0

/-- **How many listings are in a region**: those of the areas that are in it, or else its own. -/
def supply (db : Db) (r : Region) : ℕ :=
  let members := membersOf db.regions db.places r.id
  if members.isEmpty then db.direct r else (members.map db.direct).sum

@[simp] theorem counted_counted (m n : ℕ) (r : Region) : counted m (counted n r) = counted m r := rfl

theorem uncount_eq (r : Region) : uncount r = counted 0 r := by
  rw [uncount]
  split
  · rfl
  · rename_i h
    rw [not_not] at h
    rw [counted, ← h]

/-- The listings that are counted at a region do not depend on its name, or on a count. -/
theorem direct_congr (hcontractors : db'.contractors = db.contractors) {r' : Region}
    (hkey : r'.key = r.key) : db'.direct r' = db.direct r := by
  have hkind : r'.kind = r.kind := congrArg Prod.fst hkey
  have hcode : r'.code = r.code := congrArg Prod.snd hkey
  rw [direct, direct, hkind, hcode, listingsAt, listingsAt, hcontractors]

theorem countListings_counted (db : Db) (r : Region) :
    db.countListings (counted 0 r) = counted (db.direct r) r := by
  rw [countListings, direct]
  show (if r.kind = .zcta ∧ 0 < db.listingsAt r.code then counted (db.listingsAt r.code) (counted 0 r)
    else counted 0 r) = _
  by_cases hkind : r.kind = .zcta
  · rw [if_pos hkind]
    split
    · rfl
    · -- a ZIP-code area without listings keeps the count that it was given first
      rename_i h
      rw [not_and, not_lt, Nat.le_zero] at h
      rw [h hkind]
  · rw [if_neg hkind, if_neg fun h => hkind h.1]

/-- The areas in a place, in a table whose rows have been changed. -/
theorem membersOf_map {f : Region → Region} (hid : ∀ r, (f r).id = r.id) (regions : List Region)
    (places : List RegionPlace) (id : Uuid) :
    membersOf (regions.map f) places id = (membersOf regions places id).map f := by
  rw [membersOf, membersOf, List.map_filterMap]
  refine List.filterMap_congr fun rp _ => ?_
  rw [List.find?_map, show (fun z : Region => decide (z.id = rp.regionId)) ∘ f =
    fun z => decide (z.id = rp.regionId) from funext fun z => by rw [Function.comp_apply, hid]]

/-- **What `refresh_region_supply` makes of the regions.** -/
theorem refreshRegionSupply_regions (db : Db) :
    db.refreshRegionSupply.2.regions = db.regions.map fun r => counted (db.supply r) r := by
  have htwo : (db.regions.map uncount).map (db.mapRegions uncount lawful_uncount).countListings =
      db.regions.map fun r => counted (db.direct r) r := by
    rw [List.map_map]
    refine List.map_congr_left fun r _ => ?_
    rw [Function.comp_apply, uncount_eq]
    exact countListings_counted db r
  show ((db.regions.map uncount).map _).map (countMembers ((db.regions.map uncount).map _) db.places) = _
  rw [htwo, List.map_map]
  refine List.map_congr_left fun r _ => ?_
  have hmembers := membersOf_map (f := fun r => counted (db.direct r) r) (fun _ => rfl) db.regions
    db.places r.id
  -- the third statement sums what the second one has counted
  rw [Function.comp_apply, countMembers, supply]
  show (if (membersOf _ _ r.id).isEmpty then _ else counted ((membersOf _ _ r.id).map _).sum _) = _
  rw [hmembers, List.isEmpty_map, List.map_map]
  by_cases hempty : (membersOf db.regions db.places r.id).isEmpty = true
  · rw [if_pos hempty, if_pos hempty]
  · rw [if_neg hempty, if_neg hempty]
    rfl

theorem refreshRegionSupply_places (db : Db) : db.refreshRegionSupply.2.places = db.places := rfl

/-- **The supply depends on what the regions are**, and not on their names or counts. -/
theorem supply_congr (hplaces : db'.places = db.places)
    (hcontractors : db'.contractors = db.contractors) {f : Region → Region}
    (hregions : db'.regions = db.regions.map f) (hid : ∀ r, (f r).id = r.id)
    (hkey : ∀ r, (f r).key = r.key) (r : Region) : db'.supply (f r) = db.supply r := by
  rw [supply, supply, hplaces, hregions, hid, membersOf_map hid, List.isEmpty_map, List.map_map]
  have hdirect : db'.direct ∘ f = db.direct :=
    funext fun z => direct_congr hcontractors (hkey z)
  rw [hdirect, show db'.direct (f r) = db.direct r from congrFun hdirect r]

/-- Names are no part of it. -/
theorem supply_clearName (db : Db) (r : Region) :
    db.clearRedundantZctaNames.2.supply (db.clearName r) = db.supply r := by
  have hplaces : db.clearRedundantZctaNames.2.places = db.places := rfl
  have hcontractors : db.clearRedundantZctaNames.2.contractors = db.contractors := rfl
  have hregions : db.clearRedundantZctaNames.2.regions = db.regions.map db.clearName := rfl
  exact supply_congr hplaces hcontractors hregions db.lawful_clearName.id db.lawful_clearName.key r

/-! ### Names -/

theorem clearName_of_redundant (h : db.redundant r = true) : db.clearName r = { r with name := r.code } :=
  if_pos h

theorem clearName_of_not (h : db.redundant r ≠ true) : db.clearName r = r :=
  if_neg h

theorem kind_of_redundant (h : db.redundant r = true) : r.kind = .zcta := by
  rw [redundant, Bool.and_eq_true, Bool.and_eq_true] at h
  exact of_decide_eq_true h.1.1

/-- What has the name of its code repeats nothing. -/
theorem not_redundant_of_placeholder (h : r.name = r.code) : db.redundant r = false := by
  rw [redundant, h]
  simp

/-- **Which names are redundant** does not depend on the counts, nor on the names of ZIP-code areas
other than the area itself. -/
theorem redundant_congr (hplaces : db'.places = db.places) {f : Region → Region}
    (hregions : db'.regions = db.regions.map f) (hid : ∀ r, (f r).id = r.id)
    (hkey : ∀ r, (f r).key = r.key) (hcity : ∀ r, r.kind = .city → (f r).name = r.name)
    {z z' : Region} (hzid : z'.id = z.id) (hzkey : z'.key = z.key) (hzname : z'.name = z.name) :
    db'.redundant z' = db.redundant z := by
  have hzkind : z'.kind = z.kind := congrArg Prod.fst hzkey
  have hzcode : z'.code = z.code := congrArg Prod.snd hzkey
  rw [redundant, redundant, hzkind, hzcode, hzname, hzid, hplaces, hregions]
  have hany (id : Uuid) : ((db.regions.map f).any fun p => (p.id = id && p.kind = .city) &&
      p.name = z.name) = db.regions.any fun p => (p.id = id && p.kind = .city) && p.name = z.name := by
    rw [List.any_map]
    refine congrArg db.regions.any (funext fun p => ?_)
    have hkind : (f p).kind = p.kind := congrArg Prod.fst (hkey p)
    rw [Function.comp_apply, hid, hkind]
    by_cases h : p.kind = .city
    · rw [hcity p h]
    · simp [h]
  simp only [hany]

end Db

end Marketplace.Reference
