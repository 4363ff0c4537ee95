import Marketplace.Directory.Query
import Marketplace.Keyset.Pages
import Marketplace.Sql.OrderBy
import Mathlib.Data.Char
import Mathlib.Data.List.Lex

/-!
# The pages of the directory

How the directory orders its rows, where a page resumes, and the list and map queries with
the handlers over them.

An ordering leads with a key – the blended rank, the standing quality, the distance – and
ends in the name and the identifier, both ascending. The cursor is a place in that order:
the key of the last row shown and the pair that breaks ties. The distance is the one key
that a row may be without, since a contractor who covers the centre by a region it named
need not have a point.
-/

namespace Marketplace.Directory

open Search Sql

variable (env : Search.Env) (db : Db)

/-! ### Sort keys -/

/-- Metres from the centre. -/
def distanceExpression (f : Filters) (c : Contractor) : Option ℚ :=
  f.near.bind fun n => c.publicPoint.map fun p => env.distance p n.center

/-- `QUALITY_WEIGHT`. -/
def qualityWeight : ℚ := 5 / 10

/-- **What the directory ranks by**: that the text matched and how well, that the contractor
is of the kind the text asks for, that the name is close, and the standing quality; each sum
is one of doubles. -/
def rankExpression (f : Filters) (c : Contractor) : ℚ :=
  let add := fun x y => env.toFloat8 (x + y)
  add
    (match f.query with
      | none => 0
      | some q =>
        add (add (add (env.textRank c.searchDoc q) (if (matchesText env f.query c).holds then 1 else 0))
          (if (routedTo db f c).holds then 75 / 100 else 0))
          (if (nearName env f.query c).holds then 5 / 10 else 0))
    (env.toFloat8 (qualityWeight * c.qualityScore))

/-- Which value of a row the next cursor carries. -/
inductive KeyField
  | rank
  | quality
  | distance
  deriving DecidableEq

/-- **An ordering of the directory**: what it leads with, where that is read back from, and
which way it goes. -/
structure DirectoryOrdering where
  key : Option (Contractor → Option ℚ)
  field : Option KeyField
  descending : Bool

/-- The order of texts: the collation of the database, where texts that collate alike are told
apart by their characters. -/
def collation : Text → Text → Ordering := compareLex (asc env.collate) (asc id)

/-- The last word of every ordering: by name and identifier. -/
def byName : Contractor → Contractor → Ordering :=
  compareLex (fun a b => collation env a.displayName b.displayName) (asc Contractor.id)

/-- `order_by`. -/
def DirectoryOrdering.orderBy (o : DirectoryOrdering) : Contractor → Contractor → Ordering :=
  match o.key with
  | some key =>
    compareLex (if o.descending then descNullsFirst key else ascNullsLast key) (byName env)
  | none => byName env

/-- `ordering_for`. -/
def orderingFor (sort : SortOrder) (f : Filters) : DirectoryOrdering :=
  match sort with
  | .distance =>
    if f.near.isSome then ⟨some (distanceExpression env f), some .distance, false⟩
    else ⟨none, none, false⟩
  | .rating => ⟨some fun c => some c.qualityScore, some .quality, true⟩
  | .best =>
    if f.query.isNone then ⟨some fun c => some c.qualityScore, some .quality, true⟩
    else ⟨some fun c => some (rankExpression env db f c), some .rank, true⟩
  | .name => ⟨none, none, false⟩

/-! ### The keyset -/

/-- `(c.display_name, c.id) > (name, id)`. -/
def afterName (c : Contractor) (cursor : Cursor) : Bool :=
  match collation env cursor.name c.displayName with
  | .lt => true
  | .eq => cursor.id < c.id
  | .gt => false

/-- **The rows after a cursor**: past the key, or level with it and past the tie-break. -/
def DirectoryOrdering.keyset (o : DirectoryOrdering) (cursor : Option Cursor) (c : Contractor) :
    Truth :=
  match o.key with
  | some key =>
    ((isNull cursor).or
      (if o.descending then lt (key c) (cursor.bind Cursor.sortKey)
        else lt (cursor.bind Cursor.sortKey) (key c))).or
      ((eq (key c) (cursor.bind Cursor.sortKey)).and (test (afterName env) (some c) cursor))
  | none => (isNull cursor).or (test (afterName env) (some c) cursor)

/-! ### Rows and pages -/

/-- A contractor as the directory shows it. -/
structure PublicContractor where
  rankScore : Option ℚ
  qualityScore : Option ℚ
  id : Uuid
  displayName : Text
  verified : Bool
  bio : Option Text
  postalCode : Option Text
  lat : Option ℚ
  lon : Option ℚ
  locationPrecision : PublicPointSource
  addressLine1 : Option Text
  trades : List Text
  distanceM : Option ℚ
  googleRating : Option ℚ
  googleReviewCount : Option ℕ
  addressIsOwnerSupplied : Bool
  licenseAddressLine1 : Option Text
  deriving DecidableEq

/-- The slugs of a contractor's trades, each once and in order. -/
def tradeSlugs (c : Contractor) : List Text :=
  ((db.vocabulary.trades.filter fun t => db.contractorTrades.any fun ct =>
    ct.contractorId = c.id && ct.tradeId = t.1).map Prod.snd).dedup.insertionSort
      fun s t => (collation env s t).isLE

/-- `SELECT`: the projection of a row, with the rank where the query computes one. -/
def project (f : Filters) (rankScore : Option ℚ) (c : Contractor) : PublicContractor where
  rankScore := rankScore
  qualityScore := some c.qualityScore
  id := c.id
  displayName := c.displayName
  verified := c.verified
  bio := c.bio
  postalCode := c.shownPostalCode
  lat := c.publicPoint.map Point.lat
  lon := c.publicPoint.map Point.lon
  locationPrecision := c.publicPointSource
  addressLine1 := c.ownerAddressLine1.or c.licenseAddressLine1
  trades := tradeSlugs env db c
  distanceM := distanceExpression env f c
  googleRating := c.googleRating
  googleReviewCount := c.googleReviewCount
  addressIsOwnerSupplied := c.ownerAddressLine1.isSome
  licenseAddressLine1 := c.licenseAddressLine1

/-- The cursor that ends a page on a row. -/
def PublicContractor.cursor (o : DirectoryOrdering) (last : PublicContractor) : Cursor where
  name := last.displayName
  id := last.id
  sortKey :=
    match o.field with
    | some .rank => last.rankScore
    | some .quality => last.qualityScore
    | some .distance => last.distanceM
    | none => none

/-- A page of the directory. -/
structure Page where
  contractors : List PublicContractor
  nextCursor : Option Cursor

/-- **`list`**: one page of the directory. The page is chosen first and projected then, and
sorted again as the join may have shuffled it. -/
def list (f : Filters) (sort : SortOrder) (limit : ℤ) (cursor : Option Cursor) : Page :=
  let limit := (clamp limit 1 maxPage).toNat
  let o := orderingFor env db sort f
  let serving := contractorsServing env db f.near
  let page := (Sql.orderBy (o.orderBy env) (db.contractors.filter fun c =>
    ((predicate env db f serving c).and (o.keyset env cursor c)).holds)).take (limit + 1)
  let rows := (Sql.orderBy (o.orderBy env) page).map fun c =>
    project env db f (some (rankExpression env db f c)) c
  let (contractors, next) := Keyset.takeNext limit (PublicContractor.cursor o) rows
  ⟨contractors, next⟩

/-- `MAX_MAP_POINTS`. -/
def maxMapPoints : ℤ := 500

/-- The order of the map. -/
def bestFirst : Contractor → Contractor → Ordering :=
  compareLex (desc Contractor.qualityScore) (byName env)

/-- **`map_points`**: the same predicate, located rows only, a cap. -/
def mapPoints (f : Filters) (limit : ℤ) : List PublicContractor × Bool :=
  let limit := (clamp limit 1 maxMapPoints).toNat
  let serving := contractorsServing env db f.near
  let page := (Sql.orderBy (bestFirst env) (db.contractors.filter fun c =>
    ((predicate env db f serving c).and (isNotNull c.publicPoint)).holds)).take (limit + 1)
  let points := (Sql.orderBy (bestFirst env) page).map (project env db f none)
  if limit < points.length then (points.dropLast, true) else (points, false)

/-! ### Handlers -/

/-- The answer of the list. -/
structure ListResponse where
  contractors : List PublicContractor
  nextCursor : Option Text
  ignoredFilters : List Text

/-- **`GET /v1/contractors`.** -/
def listHandler (raw : RawQuery) : Except AppError ListResponse := do
  let request ← resolve env db.vocabulary raw
  let page := list env db request.filters request.sort request.limit request.cursor
  return ⟨page.contractors, page.nextCursor.map (encodeCursor env), request.ignored⟩

/-- A pin on the map. -/
structure MapPoint where
  id : Uuid
  displayName : Text
  verified : Bool
  lat : ℚ
  lon : ℚ
  locationPrecision : PublicPointSource
  addressLine1 : Option Text
  googleRating : Option ℚ
  googleReviewCount : Option ℕ
  deriving DecidableEq

/-- The pin of a contractor, who has none without a point. -/
def PublicContractor.pin (c : PublicContractor) : Option MapPoint :=
  match c.lat, c.lon with
  | some lat, some lon =>
    some ⟨c.id, c.displayName, c.verified, lat, lon, c.locationPrecision, c.addressLine1,
      c.googleRating, c.googleReviewCount⟩
  | _, _ => none

/-- The answer of the map. -/
structure MapResponse where
  points : List MapPoint
  truncated : Bool
  limit : ℤ
  ignoredFilters : List Text

/-- **`GET /v1/contractors/map`.** -/
def mapHandler (raw : RawQuery) : Except AppError MapResponse := do
  let request ← resolve env db.vocabulary raw
  let (found, truncated) := mapPoints env db request.filters maxMapPoints
  return ⟨found.filterMap PublicContractor.pin, truncated, maxMapPoints, request.ignored⟩

end Marketplace.Directory
