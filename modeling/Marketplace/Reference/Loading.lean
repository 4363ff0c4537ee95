import Marketplace.Reference.Store

/-!
# Loading regions and places

`load-regions` reads a file of ZIP-code areas. `load-places` reads four files of the census: the
counties, the points of places, the places, and how much of each ZIP-code area is in each place. Both
are one transaction, so that a row that cannot be loaded leaves everything as it was
(`Marketplace.Reference.Command.run`).

The files of the census are not CSV: their lines are split at a delimiter and their fields trimmed,
and columns are found by the names in the header.
-/

namespace Marketplace.Reference

open Search (Point parseI64)

/-- **What is not computed here**: floating-point numbers, of which only the finite ones are
modelled, and points on the ground. -/
structure Env where
  /-- `str::parse::<f64>`, where the outcome is a finite number. -/
  parseFloat : Text → Option ℚ
  /-- The nearest double. -/
  float8 : ℚ → ℚ
  /-- `ST_SetSRID(ST_MakePoint(lon, lat), 4326)::geography`. -/
  makePoint : ℚ → ℚ → Point

variable (env : Env)

/-! ### ZIP-code areas -/

/-- A row of the file of `load-regions`. -/
structure RegionRow where
  code : Text
  name : Text
  lat : ℚ
  lon : ℚ
  radiusM : Option ℤ
  deriving DecidableEq

/-- One row of `load_regions_inner`, read by the CSV library or not, with the number of those that
have been loaded. -/
def loadRegion (source : Text) (loaded : ℕ × Db) (row : Except String RegionRow) :
    Except AppError (ℕ × Db) :=
  match row with
  | .error e => .error (.invalid ("malformed region row: " ++ e))
  | .ok row =>
    if (row.lat < -90 ∨ 90 < row.lat) ∨ (row.lon < -180 ∨ 180 < row.lon) then
      .error (.invalid ("region " ++ String.ofList row.code ++ " has an impossible centroid"))
    else
      (loaded.2.upsertZcta row.code row.name (env.makePoint row.lon row.lat) row.radiusM source).map
        fun db => (loaded.1 + 1, db)

/-- **`load_regions_inner`.** -/
def loadRegionsInner (rows : List (Except String RegionRow)) (source : Text) (db : Db) :
    Except AppError (ℕ × Db) :=
  rows.foldlM (loadRegion env source) (0, db)

/-! ### The files of the census -/

/-- `str::lines`. -/
def lines (text : Text) : List Text :=
  let pieces := text.splitOn '\n'
  (pieces.dropLast.map fun line => if line.getLast? = some '\r' then line.dropLast else line) ++
    pieces.getLast?.toList.filter fun line => !line.isEmpty

/-- `census_rows`. -/
def censusRows (delimiter : Char) (text : Text) : List (List Text) :=
  ((lines text).filter fun line => !(trim line).isEmpty).map fun line =>
    (line.splitOn delimiter).map trim

/-- `census_header`: the columns by their names, of which the last one counts. -/
def censusHeader (rows : List (List Text)) : List (Text × ℕ) :=
  ((rows.head?.getD []).zipIdx.map fun column => (trim column.1, column.2)).reverse

/-- `field`. -/
def field (header : List (Text × ℕ)) (row : List Text) (name : String) : Option Text :=
  ((header.lookup name.toList).bind fun i => row[i]?).filter fun value => !value.isEmpty

/-- The files of `load-places`, as they are read. -/
structure Files where
  places : Text
  placePoints : Text
  counties : Text
  zctaPlaces : Text
  deriving DecidableEq

/-- What is read from a row, from the rows below the header. -/
def readRows {α : Type} (delimiter : Char) (text : Text)
    (parse : List (Text × ℕ) → List Text → Option α) : List α :=
  let rows := censusRows delimiter text
  (rows.drop 1).filterMap (parse (censusHeader rows))

/-- A latitude and a longitude. -/
def parsePoint (header : List (Text × ℕ)) (row : List Text) : Option Point := do
  let lat ← field header row "INTPTLAT"
  let lon ← field header row "INTPTLONG"
  let lat ← env.parseFloat lat
  let lon ← env.parseFloat lon
  some (env.makePoint lon lat)

/-- A row of the points of places: the place, and its point. -/
def parsePlacePoint (header : List (Text × ℕ)) (row : List Text) : Option (Text × Point) := do
  let geoid ← field header row "GEOID"
  let point ← parsePoint env header row
  some (geoid, point)

/-- A row of the counties of a state: the name of the county, and the county. -/
def parseCounty (state : Text) (header : List (Text × ℕ)) (row : List Text) :
    Option (Text × Db.Place) := do
  if field header row "USPS" ≠ some state then none
  else do
    let geoid ← field header row "GEOID"
    let name ← field header row "NAME"
    let point ← parsePoint env header row
    some (name, { kind := .county, code := geoid, name := name, centroid := point })

/-- A row of the places of a state. -/
structure PlaceRow where
  geoid : Text
  name : Text
  counties : Option Text
  classfp : Option Text
  deriving DecidableEq

def parsePlace (state : Text) (header : List (Text × ℕ)) (row : List Text) : Option PlaceRow := do
  if field header row "STATE" ≠ some state then none
  else do
    let statefp ← field header row "STATEFP"
    let placefp ← field header row "PLACEFP"
    let name ← field header row "PLACENAME"
    some
      { geoid := statefp ++ placefp
        name := name
        counties := field header row "COUNTIES"
        classfp := field header row "CLASSFP" }

/-- A row of how much of a ZIP-code area is in a place. -/
structure ShareRow where
  zip : Text
  placeGeoid : Text
  part : Text
  zctaArea : Text
  deriving DecidableEq

def parseShare (header : List (Text × ℕ)) (row : List Text) : Option ShareRow := do
  let zip ← field header row "GEOID_ZCTA5_20"
  let placeGeoid ← field header row "GEOID_PLACE_20"
  let part ← field header row "AREALAND_PART"
  let zctaArea ← field header row "AREALAND_ZCTA5_20"
  some ⟨zip, placeGeoid, part, zctaArea⟩

/-! ### Places -/

/-- `SUFFIXES`. -/
def suffixes : List Text :=
  [" city", " town", " village", " borough", " CDP", " municipality", " comunidad",
    " zona urbana"].map String.toList

/-- **`strip_place_suffix`.** -/
def stripPlaceSuffix (name : Text) : Text :=
  match suffixes.find? fun suffix => suffix.isSuffixOf name with
  | some suffix => name.take (name.length - suffix.length)
  | none => name

/-- `SOURCE`. -/
def censusSource : Text := "census_2020_places".toList

/-- `upsert_place`, for each of the places, with the identifiers that are given back, the last one
first. -/
def upsertPlaces (items : List (Text × Db.Place)) (db : Db) :
    Except AppError (List (Text × Uuid) × Db) :=
  items.foldlM (fun loaded item =>
    (loaded.2.upsertPlace item.2 censusSource).map fun r => ((item.1, r.1) :: loaded.1, r.2)) ([], db)

/-- The counties of a state, by their names. -/
def countyPlaces (files : Files) (state : Text) : List (Text × Db.Place) :=
  readRows '\t' files.counties (parseCounty env state)

/-- The points of places. -/
def placePoints (files : Files) : List (Text × Point) :=
  (readRows '\t' files.placePoints (parsePlacePoint env)).reverse

/-- The places of a state. -/
def placeRows (files : Files) (state : Text) : List PlaceRow :=
  readRows '|' files.places (parsePlace state)

/-- The place of a row, if there is a point for it. -/
def placeOf (points : List (Text × Point)) (countyIds : List (Text × Uuid)) (row : PlaceRow) :
    Option (Text × Db.Place) :=
  (points.lookup row.geoid).map fun point =>
    (row.geoid,
      { kind := .city
        code := row.geoid
        name := stripPlaceSuffix row.name
        centroid := point
        -- the first county is the one that the place is principally in
        parentId := (row.counties.bind fun counties => (counties.splitOn ',').head?).bind
          fun county => countyIds.lookup (trim county)
        censusClass := row.classfp })

/-- The places that have a point, by their codes. -/
def cityPlaces (files : Files) (state : Text) (countyIds : List (Text × Uuid)) :
    List (Text × Db.Place) :=
  (placeRows files state).filterMap (placeOf (placePoints env files) countyIds)

/-! ### Memberships -/

/-- How much of a ZIP-code area is in a place. -/
structure Share where
  regionId : Uuid
  placeId : Uuid
  part : ℤ
  zctaArea : ℚ
  deriving DecidableEq

/-- The share that a row is about, if both are known. -/
def shareOf (regionIds : Text → Option Uuid) (placeIds : List (Text × Uuid)) (row : ShareRow) :
    Option Share := do
  let regionId ← regionIds row.zip
  let placeId ← placeIds.lookup row.placeGeoid
  let part ← parseI64 row.part
  let zctaArea ← env.parseFloat row.zctaArea
  some ⟨regionId, placeId, part, zctaArea⟩

/-- The shares of one load. -/
def sharesOf (files : Files) (regionIds : Text → Option Uuid) (placeIds : List (Text × Uuid)) :
    List Share :=
  (readRows '|' files.zctaPlaces parseShare).filterMap (shareOf env regionIds placeIds)

/-- The two only graze. -/
def Share.isSliver (minShare : ℚ) (share : Share) : Bool :=
  share.zctaArea ≤ 0 || env.float8 (env.float8 share.part / share.zctaArea) < minShare

/-- `link_region_place`, for each of the shares. -/
def linkShares (shares : List Share) (db : Db) : Except AppError Db :=
  shares.foldlM (fun db share => db.linkRegionPlace share.regionId share.placeId share.part) db

/-- `PlacesLoaded`. -/
@[ext] structure PlacesLoaded where
  counties : ℕ
  places : ℕ
  memberships : ℕ
  sliversSkipped : ℕ
  placesWithoutPoint : ℕ
  namesSuperseded : ℕ
  withSupply : ℕ
  deriving DecidableEq

/-- **`load_places_inner`.** -/
def loadPlacesInner (files : Files) (state : Text) (minShare : ℚ) (db : Db) :
    Except AppError (PlacesLoaded × Db) := do
  let counties := countyPlaces env files state
  let (countyIds, db) ← upsertPlaces counties db
  let cities := cityPlaces env files state countyIds
  let (placeIds, db) ← upsertPlaces cities db
  let shares := sharesOf env files db.listZctaIds placeIds
  let members := shares.filter fun share => !share.isSliver env minShare
  let db ← linkShares members db
  let (superseded, db) := db.clearRedundantZctaNames
  let (withSupply, db) := db.refreshRegionSupply
  pure
    ({ counties := counties.length
       places := cities.length
       memberships := members.length
       sliversSkipped := (shares.filter fun share => share.isSliver env minShare).length
       placesWithoutPoint := (placeRows files state).length - cities.length
       namesSuperseded := superseded
       withSupply := withSupply }, db)

/-! ### Commands -/

/-- What happens to the regions. -/
inductive Command
  /-- `load-regions`. -/
  | loadRegions (rows : List (Except String RegionRow)) (source : Text)
  /-- `load-places`. -/
  | loadPlaces (files : Files) (state : Text) (minShare : ℚ)
  /-- What `recompute-verification` does to regions. -/
  | refreshSupply
  /-- Listings come and go, and move. -/
  | changeListings (contractors : List Contractor)

/-- **What a command leaves behind**: everything as it was, if it fails. -/
def Command.run : Command → Db → Db
  | .loadRegions rows source, db =>
    match loadRegionsInner env rows source db with
    | .ok (_, db') => db'
    | .error _ => db
  | .loadPlaces files state minShare, db =>
    match loadPlacesInner env files state minShare db with
    | .ok (_, db') => db'
    | .error _ => db
  | .refreshSupply, db => db.refreshRegionSupply.2
  | .changeListings contractors, db => { db with contractors := contractors }

end Marketplace.Reference
