import Marketplace.Directory.Suggestions
import Marketplace.Search.Input
import Marketplace.Upsert.Batches
import Mathlib.Data.List.MinMax

/-!
# Regions

A region is a ZIP-code area, a city or a county. A ZIP-code area has no name of its own: a name that
is its code is a placeholder, which stands until somebody gives it one and never replaces one
(`Marketplace.Reference.Db.upsertZcta`). Which cities a ZIP-code area is in, and by how much, is a
table of its own (`Suggest.RegionPlace`); a name that only repeats such a city is cleared again
(`Marketplace.Reference.Db.clearRedundantZctaNames`), and how many listings are in a city is counted
by the ZIP-code areas that are in it (`Marketplace.Reference.Db.refreshRegionSupply`).

Every statement keeps the constraints of the tables, so that they are part of the database.
-/

namespace Marketplace.Reference

open Search (Point)
open Suggest (RegionKind RegionPlace)

/-! ### Rows -/

/-- **A row of `regions`.** -/
@[ext] structure Region where
  id : Uuid
  kind : RegionKind
  code : Text
  name : Text
  parentId : Option Uuid := none
  centroid : Point
  approxRadiusM : Option ℤ := none
  censusClass : Option Text := none
  source : Text
  contractorCount : ℕ := 0
  deriving DecidableEq

/-- A listing, as far as it is counted: the postal code that its owner has given, and that of the
licence. -/
structure Contractor where
  ownerAddressPostalCode : Option Text
  postalCode : Option Text
  deriving DecidableEq

namespace Region

/-- `regions_kind_code_key`. -/
def key (r : Region) : RegionKind × Text := (r.kind, r.code)

/-- `btrim(s) <> ''`. -/
def filled (s : Text) : Bool := s.any fun c => c ≠ ' '

/-- `census_class ~ '^[A-Z][0-9]$'`. -/
def isClass : Text → Bool
  | [c, d] => c.isUpper && d.isDigit
  | _ => false

/-- The `CHECK` constraints on one row. -/
def check (r : Region) : Bool :=
  (filled r.code && filled r.name && filled r.source) &&
    (r.approxRadiusM.all (fun m => 0 < m) && r.censusClass.all isClass)

theorem check_iff {r : Region} : r.check = true ↔
    (filled r.code = true ∧ filled r.name = true ∧ filled r.source = true) ∧
      (∀ m, r.approxRadiusM = some m → 0 < m) ∧ ∀ c, r.censusClass = some c → isClass c = true := by
  simp only [check, Bool.and_eq_true, Option.all_eq_true, decide_eq_true_eq, and_assoc]

end Region

/-- `region_places_pair_key`. -/
def pairKey (rp : RegionPlace) : Uuid × Uuid := (rp.regionId, rp.placeId)

/-! ### Tables -/

/-- **The tables of regions**, and the listings that are counted. -/
@[ext] structure Db where
  regions : List Region
  places : List RegionPlace
  contractors : List Contractor
  /-- Identifiers from here on are new. -/
  next : Uuid
  keyed : (regions.map Region.key).Nodup
  numbered : (regions.map Region.id).Nodup
  fresh : ∀ r ∈ regions, r.id < next
  checked : ∀ r ∈ regions, r.check = true
  paired : (places.map pairKey).Nodup
  /-- The foreign keys of `region_places`. -/
  linked : ∀ rp ∈ places, rp.regionId ∈ regions.map Region.id ∧ rp.placeId ∈ regions.map Region.id

/-- No region is known. -/
def Db.empty : Db where
  regions := []
  places := []
  contractors := []
  next := 0
  keyed := List.nodup_nil
  numbered := List.nodup_nil
  fresh _ hr := nomatch hr
  checked _ hr := nomatch hr
  paired := List.nodup_nil
  linked _ hrp := nomatch hrp

/-! ### Statements -/

/-- A change of rows that no constraint is about, or that keeps them. -/
structure Lawful (set : Region → Region) : Prop where
  id : ∀ r, (set r).id = r.id
  key : ∀ r, (set r).key = r.key
  check : ∀ r, r.check = true → (set r).check = true

namespace Db

/-- An `UPDATE regions` of every row. -/
def mapRegions (db : Db) (set : Region → Region) (h : Lawful set) : Db :=
  have hids : (db.regions.map set).map Region.id = db.regions.map Region.id := by
    rw [List.map_map]
    exact List.map_congr_left fun r _ => h.id r
  { db with
    regions := db.regions.map set
    keyed := by
      rw [List.map_map, show Region.key ∘ set = Region.key from funext h.key]
      exact db.keyed
    numbered := hids ▸ db.numbered
    fresh := by
      intro r hr
      obtain ⟨r₀, hr₀, rfl⟩ := List.mem_map.mp hr
      rw [h.id]
      exact db.fresh r₀ hr₀
    checked := by
      intro r hr
      obtain ⟨r₀, hr₀, rfl⟩ := List.mem_map.mp hr
      exact h.check r₀ (db.checked r₀ hr₀)
    linked := by
      intro rp hrp
      rw [hids]
      exact db.linked rp hrp }

/-- `INSERT INTO regions … ON CONFLICT (kind, code) DO UPDATE SET …`, with a new identifier. -/
def upsert (db : Db) (new : Region) (set : Region → Region) (hid : new.id = db.next)
    (h : new.check = true → Lawful set) : Except AppError Db :=
  if hcheck : new.check = true then
    have hids : ∀ i ∈ db.regions.map Region.id,
        i ∈ (Upsert.onConflict Region.key new set db.regions).map Region.id := by
      intro i hi
      rw [Upsert.map_onConflict (h hcheck).id]
      split
      · exact hi
      · exact List.mem_append_left _ hi
    .ok { db with
      regions := Upsert.onConflict Region.key new set db.regions
      next := db.next + 1
      keyed := by
        rw [Upsert.map_onConflict (h hcheck).key]
        split
        · exact db.keyed
        · rename_i hnew
          exact db.keyed.append (List.nodup_singleton _) (List.disjoint_singleton.mpr hnew)
      numbered := by
        rw [Upsert.map_onConflict (h hcheck).id]
        split
        · exact db.numbered
        · refine db.numbered.append (List.nodup_singleton _) (List.disjoint_singleton.mpr ?_)
          intro hmem
          obtain ⟨r, hr, hrid⟩ := List.mem_map.mp hmem
          exact absurd (db.fresh r hr) (by rw [hrid, hid]; exact Nat.lt_irrefl _)
      fresh := by
        intro r hr
        rcases Upsert.mem_onConflict hr with rfl | hold | ⟨r₀, hr₀, rfl⟩
        · rw [hid]
          exact Nat.lt_succ_self _
        · exact Nat.lt_succ_of_lt (db.fresh r hold)
        · rw [(h hcheck).id]
          exact Nat.lt_succ_of_lt (db.fresh r₀ hr₀)
      checked := by
        intro r hr
        rcases Upsert.mem_onConflict hr with rfl | hold | ⟨r₀, hr₀, rfl⟩
        · exact hcheck
        · exact db.checked r hold
        · exact (h hcheck).check r₀ (db.checked r₀ hr₀)
      linked := fun rp hrp => ⟨hids _ (db.linked rp hrp).1, hids _ (db.linked rp hrp).2⟩ }
  else .error (.internal "violates check constraint")

/-- The region with a key. -/
def findKey (db : Db) (k : RegionKind × Text) : Option Region := db.regions.find? fun r => r.key = k

/-- The region with an identifier. -/
def findId (db : Db) (id : Uuid) : Option Region := db.regions.find? fun r => r.id = id

/-! ### ZIP-code areas -/

/-- The row that `upsert_zcta` inserts. -/
def zcta (id : Uuid) (code name : Text) (centroid : Point) (approxRadiusM : Option ℤ)
    (source : Text) : Region :=
  { id := id, kind := .zcta, code := code, name := name, centroid := centroid,
    approxRadiusM := approxRadiusM, source := source }

/-- What `upsert_zcta` writes over the row that there is. -/
def setZcta (code name : Text) (centroid : Point) (approxRadiusM : Option ℤ) (source : Text)
    (r : Region) : Region :=
  { r with
    -- a placeholder does not overwrite a name
    name := if name = code then r.name else name
    centroid := centroid
    approxRadiusM := approxRadiusM.or r.approxRadiusM
    source := source }

theorem lawful_setZcta {id : Uuid} {code name : Text} {centroid : Point} {approxRadiusM : Option ℤ}
    {source : Text} (h : (zcta id code name centroid approxRadiusM source).check = true) :
    Lawful (setZcta code name centroid approxRadiusM source) where
  id _ := rfl
  key _ := rfl
  check r hr := by
    rw [Region.check_iff] at h hr ⊢
    obtain ⟨⟨-, hname, hsource⟩, hradius, -⟩ := h
    obtain ⟨⟨hcode', hname', -⟩, hradius', hclass'⟩ := hr
    refine ⟨⟨hcode', ?_, hsource⟩, fun m hm => ?_, hclass'⟩
    · show Region.filled (if name = code then r.name else name) = true
      split
      · exact hname'
      · exact hname
    · rcases Option.or_eq_some_iff.mp hm with hnew | ⟨-, hold⟩
      · exact hradius m hnew
      · exact hradius' m hold

/-- **`upsert_zcta`.** -/
def upsertZcta (db : Db) (code name : Text) (centroid : Point) (approxRadiusM : Option ℤ)
    (source : Text) : Except AppError Db :=
  db.upsert (zcta db.next code name centroid approxRadiusM source)
    (setZcta code name centroid approxRadiusM source) rfl lawful_setZcta

/-! ### Places -/

/-- What `upsert_place` is called with, but for the source. -/
structure Place where
  kind : RegionKind
  code : Text
  name : Text
  centroid : Point
  parentId : Option Uuid := none
  censusClass : Option Text := none
  deriving DecidableEq

/-- The row that `upsert_place` inserts. -/
def place (id : Uuid) (p : Place) (source : Text) : Region :=
  { id := id, kind := p.kind, code := p.code, name := p.name, centroid := p.centroid,
    parentId := p.parentId, censusClass := p.censusClass, source := source }

/-- What `upsert_place` writes over the row that there is. -/
def setPlace (p : Place) (source : Text) (r : Region) : Region :=
  { r with
    name := p.name
    centroid := p.centroid
    parentId := p.parentId.or r.parentId
    censusClass := p.censusClass.or r.censusClass
    source := source }

theorem lawful_setPlace {id : Uuid} {p : Place} {source : Text}
    (h : (place id p source).check = true) : Lawful (setPlace p source) where
  id _ := rfl
  key _ := rfl
  check r hr := by
    rw [Region.check_iff] at h hr ⊢
    obtain ⟨⟨-, hname, hsource⟩, -, hclass⟩ := h
    obtain ⟨⟨hcode', -, -⟩, hradius', hclass'⟩ := hr
    refine ⟨⟨hcode', hname, hsource⟩, hradius', fun c hc => ?_⟩
    rcases Option.or_eq_some_iff.mp hc with hnew | ⟨-, hold⟩
    · exact hclass c hnew
    · exact hclass' c hold

/-- **`upsert_place`**, which gives the identifier of the row back. -/
def upsertPlace (db : Db) (p : Place) (source : Text) : Except AppError (Uuid × Db) :=
  (db.upsert (place db.next p source) (setPlace p source) rfl lawful_setPlace).map fun db' =>
    ((db.findKey (p.kind, p.code)).elim db.next Region.id, db')

/-! ### Which places a ZIP-code area is in -/

/-- What `link_region_place` writes over the row that there is. -/
def setShare (sharedLandM2 : ℕ) (rp : RegionPlace) : RegionPlace :=
  { rp with sharedLandM2 := sharedLandM2 }

theorem pairKey_setShare (sharedLandM2 : ℕ) (rp : RegionPlace) :
    pairKey (setShare sharedLandM2 rp) = pairKey rp := rfl

/-- **`link_region_place`.** -/
def linkRegionPlace (db : Db) (regionId placeId : Uuid) (sharedLandM2 : ℤ) : Except AppError Db :=
  if sharedLandM2 < 0 ∨ regionId = placeId then .error (.internal "violates check constraint")
  else if h : regionId ∈ db.regions.map Region.id ∧ placeId ∈ db.regions.map Region.id then
    .ok { db with
      places := Upsert.onConflict pairKey ⟨regionId, placeId, sharedLandM2.toNat⟩
        (setShare sharedLandM2.toNat) db.places
      paired := by
        rw [Upsert.map_onConflict (pairKey_setShare _)]
        split
        · exact db.paired
        · rename_i hnew
          exact db.paired.append (List.nodup_singleton _) (List.disjoint_singleton.mpr hnew)
      linked := by
        intro rp hrp
        rcases Upsert.mem_onConflict hrp with rfl | hold | ⟨rp₀, hrp₀, rfl⟩
        · exact h
        · exact db.linked rp hold
        · exact db.linked rp₀ hrp₀ }
  else .error (.internal "violates foreign key constraint")

/-- `list_zcta_ids`: the ZIP-code areas by their codes. -/
def listZctaIds (db : Db) (code : Text) : Option Uuid := (db.findKey (.zcta, code)).map Region.id

/-! ### Names -/

/-- The name of a ZIP-code area only repeats that of a city which it is in. -/
def redundant (db : Db) (z : Region) : Bool :=
  (z.kind = .zcta && z.name ≠ z.code) &&
    db.places.any fun rp => rp.regionId = z.id &&
      db.regions.any fun p => (p.id = rp.placeId && p.kind = .city) && p.name = z.name

/-- What `clear_redundant_zcta_names` writes. -/
def clearName (db : Db) (z : Region) : Region :=
  if db.redundant z then { z with name := z.code } else z

theorem lawful_clearName (db : Db) : Lawful db.clearName where
  id z := by rw [clearName]; split <;> rfl
  key z := by rw [clearName]; split <;> rfl
  check z hz := by
    rw [clearName]
    split
    · rw [Region.check_iff] at hz ⊢
      exact ⟨⟨hz.1.1, hz.1.1, hz.1.2.2⟩, hz.2⟩
    · exact hz

/-- **`clear_redundant_zcta_names`**, with the number of the names that are cleared. -/
def clearRedundantZctaNames (db : Db) : ℕ × Db :=
  (db.regions.countP db.redundant, db.mapRegions db.clearName db.lawful_clearName)

/-- The place that most of a ZIP-code area is in. -/
def mainPlace (db : Db) (z : Region) : Option Region :=
  ((db.places.filter fun rp => rp.regionId = z.id).filterMap fun rp =>
    (db.findId rp.placeId).map fun p => (rp.sharedLandM2, p)).argmax Prod.fst |>.map Prod.snd

/-- The name of a ZIP-code area in `list_zctas`: its own, or that of the place that most of it is in,
or its code. -/
def shownName (db : Db) (z : Region) : Text :=
  (if z.name = z.code then none else some z.name).or ((db.mainPlace z).map Region.name) |>.getD z.code

/-! ### Supply -/

/-- How many listings have a postal code. -/
def listingsAt (db : Db) (code : Text) : ℕ :=
  db.contractors.countP fun c => c.ownerAddressPostalCode.or c.postalCode = some code

/-- The rows of `region_places JOIN regions` that are about a place. -/
def membersOf (regions : List Region) (places : List RegionPlace) (placeId : Uuid) : List Region :=
  (places.filter fun rp => rp.placeId = placeId).filterMap fun rp =>
    regions.find? fun z => z.id = rp.regionId

/-- The row with another count. -/
def counted (n : ℕ) (r : Region) : Region := { r with contractorCount := n }

/-- The first statement of `refresh_region_supply`: no counts. -/
def uncount (r : Region) : Region := if r.contractorCount ≠ 0 then counted 0 r else r

/-- The second: the listings in a ZIP-code area. -/
def countListings (db : Db) (r : Region) : Region :=
  if r.kind = .zcta ∧ 0 < db.listingsAt r.code then counted (db.listingsAt r.code) r else r

/-- The third: a place has those of the areas that are in it. -/
def countMembers (regions : List Region) (places : List RegionPlace) (p : Region) : Region :=
  let members := membersOf regions places p.id
  if members.isEmpty then p else counted (members.map Region.contractorCount).sum p

theorem lawful_of_counted {set : Region → Region}
    (h : ∀ r, set r = r ∨ ∃ n, set r = counted n r) : Lawful set where
  id r := by
    rcases h r with he | ⟨n, he⟩
    · rw [he]
    · rw [he]
      rfl
  key r := by
    rcases h r with he | ⟨n, he⟩
    · rw [he]
    · rw [he]
      rfl
  check r hr := by
    rcases h r with he | ⟨n, he⟩
    · rwa [he]
    · rw [he]
      exact hr

theorem lawful_uncount : Lawful uncount := by
  refine lawful_of_counted fun r => ?_
  rw [uncount]
  split
  · exact Or.inr ⟨0, rfl⟩
  · exact Or.inl rfl

theorem lawful_countListings (db : Db) : Lawful db.countListings := by
  refine lawful_of_counted fun r => ?_
  rw [countListings]
  split
  · exact Or.inr ⟨_, rfl⟩
  · exact Or.inl rfl

theorem lawful_countMembers (regions : List Region) (places : List RegionPlace) :
    Lawful (countMembers regions places) := by
  refine lawful_of_counted fun r => ?_
  rw [countMembers]
  split
  · exact Or.inl rfl
  · exact Or.inr ⟨_, rfl⟩

/-- **`refresh_region_supply`**, with the number of the regions where there is anybody. -/
def refreshRegionSupply (db : Db) : ℕ × Db :=
  let db := db.mapRegions uncount lawful_uncount
  let db := db.mapRegions db.countListings db.lawful_countListings
  let db := db.mapRegions (countMembers db.regions db.places) (lawful_countMembers _ _)
  (db.regions.countP fun r => 0 < r.contractorCount, db)

end Db

end Marketplace.Reference
