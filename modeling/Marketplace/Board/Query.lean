import Marketplace.Board.Jobs

/-!
# What the board is asked

The raw query string of the board and what it is parsed into. A parameter that makes no
sense is dropped and named, except where dropping it would return the wrong page: an
unknown sort, a page size that is no number and a broken cursor are refused.
-/

namespace Marketplace.Board

open Search

/-- How the board is ordered. -/
inductive SortOrder
  /-- Newest first. -/
  | newest
  /-- How well the text matched. -/
  | best
  /-- Largest budget first. -/
  | budget
  /-- Nearest first. -/
  | distance
  /-- Fit to the contractor looking. -/
  | forMe
  deriving DecidableEq

/-- The place in the list that a page ended at. -/
structure Cursor where
  createdAt : Instant
  id : Uuid
  /-- The value the ordering leads with, when it leads with something else than the
  posting time. -/
  sortKey : Option ℚ
  deriving DecidableEq

/-- The query string, parameter by parameter. -/
structure RawQuery where
  q : Option Text := none
  sort : Option Text := none
  timeline : Option Text := none
  buildType : Option Text := none
  budgetMin : Option Text := none
  trade : Option Text := none
  zip : Option Text := none
  lat : Option Text := none
  lon : Option Text := none
  radiusM : Option Text := none
  limit : Option Text := none
  cursor : Option Text := none
  deriving DecidableEq

/-- A parsed query. -/
structure JobQuery where
  sort : SortOrder
  filters : Filters
  limit : ℤ
  cursor : Option Cursor
  /-- The parameters that were dropped. -/
  ignored : List Text

/-- `MAX_PAGE`. -/
def maxPage : ℤ := 50

/-- `DEFAULT_PAGE`. -/
def defaultPage : ℤ := 20

/-- `MAX_RADIUS_M`. -/
def maxRadiusM : ℚ := 200000

/-- `DEFAULT_RADIUS_M`. -/
def defaultRadiusM : ℚ := 25000

variable (env : Search.Env)

/-! ### Cursors -/

/-- `encode_cursor`. -/
def encodeCursor (c : Cursor) : Text := encodeFields env c.id c.sortKey (env.toRfc3339 c.createdAt)

/-- `decode_cursor`. -/
def decodeCursor (value : Text) : Except AppError Cursor := do
  let (id, sortKey, createdAt) ← decodeFields env value
  let some createdAt := env.parseRfc3339 createdAt | throw invalidCursor
  return ⟨createdAt, id, sortKey⟩

variable {env} in
/-- **A page cursor is read back as it was written.** -/
theorem decodeCursor_encodeCursor (h : env.RoundTrips) (c : Cursor) :
    decodeCursor env (encodeCursor env c) = .ok c := by
  simp [decodeCursor, encodeCursor, decodeFields_encodeFields h, h.rfc3339, bind, Except.bind,
    pure, Except.pure]

/-! ### Parameters -/

/-- The value of an optional parameter, and its name if it was dropped. -/
def optional {α : Type} (name : String) (raw : Option Text) (read : Text → Option α) :
    Option α × List Text :=
  match present raw with
  | none => (none, [])
  | some value =>
    match read value with
    | some a => (some a, [])
    | none => (none, [name.toList])

/-- A timeline that the board offers. -/
def parseTimeline (value : Text) : Option JobTimeline := (JobTimeline.parseRequest value).toOption

/-- A build type that the board offers. -/
def parseBuildType (value : Text) : Option BuildType := (BuildType.parseRequest value).toOption

/-- A floor under the budget, in cents. -/
def parseBudgetMin (value : Text) : Option ℕ :=
  match parseI64 value with
  | some cents => if 0 ≤ cents then some cents.toNat else none
  | none => none

/-- A ZIP code. -/
def parseZip (value : Text) : Option Text := if isZip value then some value else none

/-- The centre and the radius, one filter in three parts. -/
def parseNear (raw : RawQuery) : Option Near × List Text :=
  match parseF64 env raw.lat, parseF64 env raw.lon, parseF64 env raw.radiusM with
  | some lat, some lon, radius =>
    if -90 ≤ lat ∧ lat ≤ 90 ∧ -180 ≤ lon ∧ lon ≤ 180 then
      (some ⟨lat, lon, clamp (radius.getD defaultRadiusM) 1 maxRadiusM⟩, [])
    else (none, ["lat/lon/radius_m".toList])
  | none, none, none => (none, [])
  | _, _, _ => (none, ["lat/lon/radius_m".toList])

/-- The size of a page. -/
def parseLimit (raw : RawQuery) : Except AppError ℤ :=
  match present raw.limit with
  | some value =>
    match parseI64 value with
    | some n => .ok (clamp n 1 maxPage)
    | none => .error (.invalid "limit must be a number")
  | none => .ok defaultPage

/-- The cursor to resume from. -/
def parseCursor (raw : RawQuery) : Except AppError (Option Cursor) :=
  match raw.cursor.filter fun c => !c.isEmpty with
  | some value => (decodeCursor env value).map some
  | none => .ok none

/-- The order asked for. -/
def parseSort (raw : RawQuery) (near : Option Near) : Except AppError SortOrder :=
  match present raw.sort with
  | none => .ok .newest
  | some value =>
    if value = "newest".toList then .ok .newest
    else if value = "best".toList then .ok .best
    else if value = "budget".toList then .ok .budget
    else if value = "distance".toList then
      if near.isNone then .error (.invalid "sort=distance needs lat and lon to measure from")
      else .ok .distance
    else .error (.invalid
      ("unknown sort \"" ++ String.ofList value ++ "\"; expected newest, best, budget or distance"))

/-- **`parse`**: the query that a query string asks, over the trades already resolved. -/
def parse (raw : RawQuery) (tradeIds : List Uuid) : Except AppError JobQuery := do
  let (timeline, ignoredTimeline) := optional "timeline" raw.timeline parseTimeline
  let (buildType, ignoredBuildType) := optional "build_type" raw.buildType parseBuildType
  let (budgetMinCents, ignoredBudgetMin) := optional "budget_min" raw.budgetMin parseBudgetMin
  let (postalCode, ignoredZip) := optional "zip" raw.zip parseZip
  let (near, ignoredNear) := parseNear env raw
  let filters : Filters :=
    { query := queryText raw.q
      tradeIds := boundTrades tradeIds
      postalCode := postalCode
      near := near
      timeline := timeline
      buildType := buildType
      budgetMinCents := budgetMinCents }
  let limit ← parseLimit raw
  let cursor ← parseCursor env raw
  let sort ← parseSort raw near
  return {
    sort := sort
    filters := filters
    limit := limit
    cursor := cursor
    ignored := ignoredTimeline ++ ignoredBuildType ++ ignoredBudgetMin ++ ignoredZip ++ ignoredNear }

/-! ### Trades -/

variable (vocabulary : Vocabulary)

/-- The trades that the trade parameter names. -/
def rawTradeIds (raw : RawQuery) : List Uuid :=
  match present raw.trade with
  | some list => tradeIdsForSlugs vocabulary (slugs list)
  | none => []

/-- **The query that the board answers**: parsed, with the trades its text asks for. -/
def resolve (raw : RawQuery) : Except AppError JobQuery := do
  let query ← parse env raw (rawTradeIds vocabulary raw)
  return { query with filters :=
    { query.filters with
      queryTradeIds := queryTrades env vocabulary query.filters.query } }

variable {env vocabulary} {raw : RawQuery}

/-- A query string is refused for its page size, its cursor or its sort, and for nothing
else. -/
theorem parse_eq {tradeIds : List Uuid} {query : JobQuery} (h : parse env raw tradeIds = .ok query) :
    parseLimit raw = .ok query.limit ∧ parseCursor env raw = .ok query.cursor ∧
      parseSort raw (parseNear env raw).1 = .ok query.sort ∧
      query.filters =
        { query := queryText raw.q
          tradeIds := boundTrades tradeIds
          postalCode := (optional "zip" raw.zip parseZip).1
          near := (parseNear env raw).1
          timeline := (optional "timeline" raw.timeline parseTimeline).1
          buildType := (optional "build_type" raw.buildType parseBuildType).1
          budgetMinCents := (optional "budget_min" raw.budgetMin parseBudgetMin).1 } := by
  rw [parse] at h
  simp only [bind, Except.bind] at h
  rcases hlimit : parseLimit raw with _ | limit
  · rw [hlimit] at h
    simp at h
  rcases hcursor : parseCursor env raw with _ | cursor
  · rw [hlimit, hcursor] at h
    simp at h
  rcases hsort : parseSort raw (parseNear env raw).1 with _ | sort
  · rw [hlimit, hcursor] at h
    simp only [hsort] at h
    simp at h
  rw [hlimit, hcursor] at h
  simp only [hsort, pure, Except.pure] at h
  cases h
  exact ⟨rfl, rfl, rfl, rfl⟩

/-- The query that the board answers is the parsed one, with the trades of its text. -/
theorem resolve_eq {query : JobQuery} (h : resolve env vocabulary raw = .ok query) :
    ∃ q, parse env raw (rawTradeIds vocabulary raw) = .ok q ∧
      query = { q with filters :=
        { q.filters with queryTradeIds := queryTrades env vocabulary q.filters.query } } := by
  rw [resolve] at h
  simp only [bind, Except.bind] at h
  rcases hq : parse env raw (rawTradeIds vocabulary raw) with _ | q
  · rw [hq] at h
    simp at h
  · rw [hq] at h
    exact ⟨q, rfl, (Except.ok.inj h).symm⟩

/-- With another cursor, a query string asks for the same rows. -/
theorem parse_cursor {tradeIds : List Uuid} {query : JobQuery} {value : Option Text}
    {cursor : Option Cursor} (h : parse env raw tradeIds = .ok query)
    (hcursor : parseCursor env { raw with cursor := value } = .ok cursor) :
    parse env { raw with cursor := value } tradeIds = .ok { query with cursor := cursor } := by
  obtain ⟨hlimit, hown, hsort, -⟩ := parse_eq h
  have hlimit' : parseLimit { raw with cursor := value } = .ok query.limit := hlimit
  have hsort' : parseSort { raw with cursor := value } (parseNear env raw).1 = .ok query.sort :=
    hsort
  have hnear : parseNear env { raw with cursor := value } = parseNear env raw := rfl
  rw [parse] at h ⊢
  simp only [bind, Except.bind, hsort, hlimit, hown, pure, Except.pure] at h
  simp only [bind, Except.bind, hnear, hsort', hlimit', hcursor, pure, Except.pure]
  rw [← Except.ok.inj h]

/-- The cursor of a page is read from the query string as it was written. -/
theorem parseCursor_encodeCursor (h : env.RoundTrips) (hempty : env.base64 [] = [])
    (cursor : Option Cursor) :
    parseCursor env { raw with cursor := cursor.map (encodeCursor env) } = .ok cursor := by
  rcases cursor with _ | c
  · rfl
  · have hkept : (some (encodeCursor env c)).filter (fun c => !c.isEmpty) =
        some (encodeCursor env c) := by
      rw [Option.filter_eq_some_iff]
      have hne : encodeCursor env c ≠ [] := encodeFields_ne_nil h hempty _ _ _
      exact ⟨rfl, by simpa using hne⟩
    rw [parseCursor]
    simp only [Option.map_some, hkept, decodeCursor_encodeCursor h]
    rfl

/-- **The pages of a query string are those of one query**: with the cursor of a page in place
of its own, it asks for the same rows from that page on. -/
theorem resolve_cursor (h : env.RoundTrips) (hempty : env.base64 [] = []) {query : JobQuery}
    (hr : resolve env vocabulary raw = .ok query) (cursor : Option Cursor) :
    resolve env vocabulary { raw with cursor := cursor.map (encodeCursor env) } =
      .ok { query with cursor := cursor } := by
  obtain ⟨q, hparse, rfl⟩ := resolve_eq hr
  have hagain := parse_cursor hparse (parseCursor_encodeCursor h hempty cursor)
  have htrades : rawTradeIds vocabulary { raw with cursor := cursor.map (encodeCursor env) } =
      rawTradeIds vocabulary raw := rfl
  rw [resolve, htrades, hagain]
  rfl

/-- The order by fit is not for everyone. -/
theorem parseSort_ne_forMe {near : Option Near} {sort : SortOrder}
    (h : parseSort raw near = .ok sort) : sort ≠ .forMe := by
  rintro rfl
  rw [parseSort] at h
  split at h
  · simp at h
  · split_ifs at h <;> simp at h

/-- The radius of a parsed centre is clamped. -/
theorem parseNear_radius {n : Near} (h : n ∈ (parseNear env raw).1) :
    1 ≤ n.radiusM ∧ n.radiusM ≤ maxRadiusM := by
  rw [parseNear] at h
  split at h
  · split at h
    · obtain rfl := Option.some.inj h
      exact ⟨le_max_left _ _, max_le (by decide) (min_le_right _ _)⟩
    · exact absurd h (by simp)
  · exact absurd h (by simp)
  · exact absurd h (by simp)

/-- A parsed ZIP code is one. -/
theorem parseZip_isZip {z : Text} (h : z ∈ (optional "zip" raw.zip parseZip).1) :
    isZip z = true := by
  rw [optional] at h
  split at h
  · exact absurd h (by simp)
  · split at h
    next a ha =>
      obtain rfl := Option.some.inj h
      rw [parseZip] at ha
      split at ha
      next hz =>
        obtain rfl := Option.some.inj ha
        exact hz
      next => exact absurd ha (by simp)
    next => exact absurd h (by simp)

end Marketplace.Board
