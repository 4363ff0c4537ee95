import Marketplace.Directory.Contractors

/-!
# What the directory is asked

The raw query string of the directory and what it is parsed into. A junk filter is dropped
and named; a junk sort, page size or cursor is refused, because ignoring it would return the
wrong page.

The list and the map read one query string with the same function, and both resolve the
trades it names and the trades its text asks for: `Marketplace.Directory.resolve`.
-/

namespace Marketplace.Directory

open Search

/-- How the directory is ordered. -/
inductive SortOrder
  /-- How well the text matched, blended with the standing quality. -/
  | best
  /-- The standing quality alone. -/
  | rating
  | distance
  | name
  deriving DecidableEq

/-- Where the previous page ended. -/
structure Cursor where
  name : Text
  id : Uuid
  /-- The value of whatever the ordering leads with. -/
  sortKey : Option ℚ
  deriving DecidableEq

/-- The query string, parameter by parameter. -/
structure RawQuery where
  q : Option Text := none
  trade : Option Text := none
  verified : Option Text := none
  zip : Option Text := none
  lat : Option Text := none
  lon : Option Text := none
  radiusM : Option Text := none
  bbox : Option Text := none
  sort : Option Text := none
  limit : Option Text := none
  cursor : Option Text := none

/-- A parsed query. -/
structure SearchRequest where
  filters : Filters
  sort : SortOrder
  limit : ℤ
  cursor : Option Cursor
  /-- The filters that were dropped. -/
  ignored : List Text

/-- `MAX_PAGE`. -/
def maxPage : ℤ := 50

/-- `DEFAULT_LIMIT`. -/
def defaultLimit : ℤ := 20

/-- `MAX_RADIUS_M`. -/
def maxRadiusM : ℚ := 200000

variable (env : Search.Env)

/-! ### Cursors -/

/-- `encode_cursor`. -/
def encodeCursor (c : Cursor) : Text := encodeFields env c.id c.sortKey c.name

/-- `decode_cursor`. -/
def decodeCursor (value : Text) : Except AppError Cursor := do
  let (id, sortKey, name) ← decodeFields env value
  return ⟨name, id, sortKey⟩

variable {env} in
/-- **A page cursor is read back as it was written**, whatever the name is. -/
theorem decodeCursor_encodeCursor (h : env.RoundTrips) (c : Cursor) :
    decodeCursor env (encodeCursor env c) = .ok c := by
  simp [decodeCursor, encodeCursor, decodeFields_encodeFields h, bind, Except.bind, pure,
    Except.pure]

/-! ### Parameters -/

/-- Whether only verified contractors are asked for. -/
def parseVerified (raw : RawQuery) : Bool :=
  raw.verified = some "1".toList || raw.verified = some "true".toList ||
    raw.verified = some "yes".toList

/-- A trade filter that no trade answers to. -/
def ignoredTrade (raw : RawQuery) (tradeIds : List Uuid) : List Text :=
  if (present raw.trade).isSome && tradeIds.isEmpty then ["trade".toList] else []

/-- The ZIP code, and its name if it was dropped. -/
def parseZip (raw : RawQuery) : Option Text × List Text :=
  match present raw.zip with
  | some zip => if isZip zip then (some zip, []) else (none, ["zip".toList])
  | none => (none, [])

/-- The centre and the radius, one filter in three parts. -/
def parseNear (raw : RawQuery) : Option Near × List Text :=
  match parseF64 env raw.lat, parseF64 env raw.lon, parseF64 env raw.radiusM with
  | some lat, some lon, radius =>
    if -90 ≤ lat ∧ lat ≤ 90 ∧ -180 ≤ lon ∧ lon ≤ 180 then
      -- no radius narrows nothing, where the job board has a default one
      (some ⟨lat, lon, radius.map fun r => clamp r 1 maxRadiusM⟩, [])
    else (none, ["lat/lon/radius_m".toList])
  | none, none, none => (none, [])
  | _, _, _ => (none, ["lat/lon/radius_m".toList])

/-- `parse_bbox`: parts that are no numbers are skipped, and four have to be left. -/
def parseBbox (value : Text) : Option BoundingBox :=
  match (value.splitOn ',').filterMap fun part => env.parseFloat (trim part) with
  | [minLon, minLat, maxLon, maxLat] =>
    if -180 ≤ minLon ∧ minLon ≤ 180 ∧ -180 ≤ maxLon ∧ maxLon ≤ 180 ∧ -90 ≤ minLat ∧ minLat ≤ 90 ∧
        -90 ≤ maxLat ∧ maxLat ≤ 90 ∧ minLon < maxLon ∧ minLat < maxLat then
      some ⟨minLat, minLon, maxLat, maxLon⟩
    else none
  | _ => none

/-- The viewport, and its name if it was dropped. -/
def parseViewport (raw : RawQuery) : Option BoundingBox × List Text :=
  match raw.bbox with
  | some value =>
    match parseBbox env value with
    | some bbox => (some bbox, [])
    | none => (none, ["bbox".toList])
  | none => (none, [])

/-- The order asked for. -/
def parseSort (raw : RawQuery) (near : Option Near) : Except AppError SortOrder :=
  match raw.sort with
  | none => .ok .best
  | some value =>
    if value = "best".toList ∨ value = "relevance".toList then .ok .best
    else if value = "rating".toList then .ok .rating
    else if value = "distance".toList then
      if near.isNone then .error (.invalid "sort=distance needs lat and lon to measure from")
      else .ok .distance
    else if value = "name".toList then .ok .name
    else .error (.invalid
      ("unknown sort \"" ++ String.ofList value ++ "\"; expected best, rating, distance or name"))

/-- The size of a page. -/
def parseLimit (raw : RawQuery) : Except AppError ℤ :=
  match raw.limit with
  | none => .ok defaultLimit
  | some value =>
    match parseI64 value with
    | some n => .ok (clamp n 1 maxPage)
    | none => .error (.invalid "limit must be a whole number")

/-- The cursor to resume from. -/
def parseCursor (raw : RawQuery) : Except AppError (Option Cursor) :=
  match raw.cursor.filter fun c => !c.isEmpty with
  | some value => (decodeCursor env value).map some
  | none => .ok none

/-- **`parse`**: the search that a query string asks for, over the trades already resolved. -/
def parse (raw : RawQuery) (tradeIds : List Uuid) : Except AppError SearchRequest := do
  let (postalCode, ignoredZip) := parseZip raw
  let (near, ignoredNear) := parseNear env raw
  let (bbox, ignoredBbox) := parseViewport env raw
  let filters : Filters :=
    { query := queryText raw.q
      tradeIds := tradeIds
      verifiedOnly := parseVerified raw
      postalCode := postalCode
      near := near
      bbox := bbox }
  let sort ← parseSort raw near
  let limit ← parseLimit raw
  let cursor ← parseCursor env raw
  return {
    filters := filters
    sort := sort
    limit := limit
    cursor := cursor
    ignored := ignoredTrade raw tradeIds ++ ignoredZip ++ ignoredNear ++ ignoredBbox }

/-! ### Trades -/

variable (vocabulary : Vocabulary)

/-- `trade_ids`: the trades that the trade parameter names. -/
def tradeIds (raw : RawQuery) : List Uuid :=
  match raw.trade with
  | none => []
  | some trade => if (slugs trade).isEmpty then [] else tradeIdsForSlugs vocabulary (slugs trade)

/-- **The search that the directory answers**: parsed, with the trades its text asks for. -/
def resolve (raw : RawQuery) : Except AppError SearchRequest := do
  let request ← parse env raw (tradeIds vocabulary raw)
  return { request with filters :=
    { request.filters with queryTradeIds := queryTrades env vocabulary request.filters.query } }

variable {env vocabulary} {raw : RawQuery}

/-- A query string is refused for its sort, its page size or its cursor, and for nothing
else. -/
theorem parse_eq {ids : List Uuid} {request : SearchRequest} (h : parse env raw ids = .ok request) :
    parseSort raw (parseNear env raw).1 = .ok request.sort ∧ parseLimit raw = .ok request.limit ∧
      parseCursor env raw = .ok request.cursor ∧
      request.filters =
        { query := queryText raw.q
          tradeIds := ids
          verifiedOnly := parseVerified raw
          postalCode := (parseZip raw).1
          near := (parseNear env raw).1
          bbox := (parseViewport env raw).1 } := by
  rw [parse] at h
  simp only [bind, Except.bind] at h
  rcases hsort : parseSort raw (parseNear env raw).1 with _ | sort
  · rw [hsort] at h
    simp at h
  rcases hlimit : parseLimit raw with _ | limit
  · rw [hsort, hlimit] at h
    simp at h
  rcases hcursor : parseCursor env raw with _ | cursor
  · rw [hsort, hlimit] at h
    simp only [hcursor] at h
    simp at h
  rw [hsort, hlimit] at h
  simp only [hcursor, pure, Except.pure] at h
  cases h
  exact ⟨rfl, rfl, rfl, rfl⟩

/-- The search that the directory answers is the parsed one, with the trades of its text. -/
theorem resolve_eq {request : SearchRequest} (h : resolve env vocabulary raw = .ok request) :
    ∃ r, parse env raw (tradeIds vocabulary raw) = .ok r ∧
      request = { r with filters :=
        { r.filters with queryTradeIds := queryTrades env vocabulary r.filters.query } } := by
  rw [resolve] at h
  simp only [bind, Except.bind] at h
  rcases hr : parse env raw (tradeIds vocabulary raw) with _ | r
  · rw [hr] at h
    simp at h
  · rw [hr] at h
    exact ⟨r, rfl, (Except.ok.inj h).symm⟩

/-- With another cursor, a query string asks for the same search. -/
theorem parse_cursor {ids : List Uuid} {request : SearchRequest} {value : Option Text}
    {cursor : Option Cursor} (h : parse env raw ids = .ok request)
    (hcursor : parseCursor env { raw with cursor := value } = .ok cursor) :
    parse env { raw with cursor := value } ids = .ok { request with cursor := cursor } := by
  obtain ⟨hsort, hlimit, hown, -⟩ := parse_eq h
  have hsort' : parseSort { raw with cursor := value } (parseNear env raw).1 = .ok request.sort :=
    hsort
  have hlimit' : parseLimit { raw with cursor := value } = .ok request.limit := hlimit
  have hnear : parseNear env { raw with cursor := value } = parseNear env raw := rfl
  rw [parse] at h ⊢
  simp only [bind, Except.bind, hsort, hlimit, hown, pure, Except.pure] at h
  simp only [bind, Except.bind, hnear, hsort', hlimit', hcursor, pure, Except.pure]
  rw [← Except.ok.inj h]
  rfl

/-- The cursor of a page is read from the query string as it was written. -/
theorem parseCursor_encodeCursor (h : env.RoundTrips) (hempty : env.base64 [] = [])
    (cursor : Option Cursor) :
    parseCursor env { raw with cursor := cursor.map (encodeCursor env) } = .ok cursor := by
  rcases cursor with _ | c
  · rfl
  · have hkept : (some (encodeCursor env c)).filter (fun c => !c.isEmpty) =
        some (encodeCursor env c) := by
      rw [Option.filter_eq_some_iff]
      have hne : encodeCursor env c ≠ [] := encodeFields_ne_nil h hempty _ _ _
      exact ⟨rfl, by simpa using hne⟩
    rw [parseCursor]
    simp only [Option.map_some, hkept, decodeCursor_encodeCursor h]
    rfl

/-- **The pages of a query string are those of one search**: with the cursor of a page in place
of its own, it asks for the same search from that page on. -/
theorem resolve_cursor (h : env.RoundTrips) (hempty : env.base64 [] = []) {request : SearchRequest}
    (hr : resolve env vocabulary raw = .ok request) (cursor : Option Cursor) :
    resolve env vocabulary { raw with cursor := cursor.map (encodeCursor env) } =
      .ok { request with cursor := cursor } := by
  obtain ⟨r, hparse, rfl⟩ := resolve_eq hr
  have hagain := parse_cursor hparse (parseCursor_encodeCursor h hempty cursor)
  have htrades : tradeIds vocabulary { raw with cursor := cursor.map (encodeCursor env) } =
      tradeIds vocabulary raw := rfl
  rw [resolve, htrades, hagain]
  rfl

/-- The radius of a parsed centre is clamped. -/
theorem parseNear_radius {n : Near} (h : n ∈ (parseNear env raw).1) :
    ∀ r ∈ n.radiusM, 1 ≤ r ∧ r ≤ maxRadiusM := by
  rw [parseNear] at h
  split at h
  · split at h
    · obtain rfl := Option.some.inj h
      intro r hr
      obtain ⟨s, -, rfl⟩ := Option.map_eq_some_iff.mp hr
      exact ⟨le_max_left _ _, max_le (by decide) (min_le_right _ _)⟩
    · exact absurd h (by simp)
  · exact absurd h (by simp)
  · exact absurd h (by simp)

/-- A parsed ZIP code is one. -/
theorem parseZip_isZip {z : Text} (h : z ∈ (parseZip raw).1) : isZip z = true := by
  rw [parseZip] at h
  split at h
  · split at h
    next hz =>
      obtain rfl := Option.some.inj h
      exact hz
    next => exact absurd h (by simp)
  · exact absurd h (by simp)

/-- A parsed viewport has an extent. -/
theorem parseBbox_lt {value : Text} {b : BoundingBox} (h : parseBbox env value = some b) :
    b.minLon < b.maxLon ∧ b.minLat < b.maxLat := by
  rw [parseBbox] at h
  split at h
  · split at h
    next hb =>
      obtain rfl := Option.some.inj h
      exact ⟨hb.2.2.2.2.2.2.2.2.1, hb.2.2.2.2.2.2.2.2.2⟩
    next => exact absurd h (by simp)
  · exact absurd h (by simp)

/-- The distance is only asked for with a centre to measure it from. -/
theorem parseSort_distance {near : Option Near} (h : parseSort raw near = .ok .distance) :
    near.isSome = true := by
  rcases near with _ | n
  · rw [parseSort] at h
    split at h
    · simp at h
    · simp only [Option.isNone_none, if_true] at h
      split_ifs at h <;> simp at h
  · rfl

end Marketplace.Directory
