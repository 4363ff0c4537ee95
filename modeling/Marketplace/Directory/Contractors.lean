import Marketplace.Search.Input
import Marketplace.Sql.ThreeValued

/-!
# Contractors, and who covers a place

A contractor as a listing is stored, the filters a directory is asked with, and the one
condition that decides which listings match, `Marketplace.Directory.predicate`.

A contractor covers a place within the radius it travels from its own point, and the regions
it has named. A radius that differs from row to row is nothing an index can answer, so the
test is split: contractors who kept the default radius are compared with a constant, and the
others are resolved by a query of their own, ahead of the statement, and arrive as a list of
identifiers. `Marketplace.Directory.coverage_iff` says that this comes to the same.
-/

namespace Marketplace.Directory

open Search Sql

/-! ### Rows -/

/-- How precise a published point is. -/
inductive PublicPointSource
  | exact
  | zipCentroid
  | none
  deriving DecidableEq

/-- **A row of `contractors`**, with what its licence record is read for. -/
structure Contractor where
  id : Uuid
  displayName : Text
  bio : Option Text
  verified : Bool
  postalCode : Option Text
  /-- The ZIP code the owner gave, which is shown in place of the registered one. -/
  ownerAddressPostalCode : Option Text
  ownerAddressLine1 : Option Text
  /-- The street line on the licence. -/
  licenseAddressLine1 : Option Text
  publicPoint : Option Point
  publicPointSource : PublicPointSource
  /-- How far the contractor travels. -/
  serviceRadiusM : ℕ
  googleRating : Option ℚ
  googleReviewCount : Option ℕ
  /-- The standing quality. -/
  qualityScore : ℚ
  /-- A point is published exactly with a source. -/
  public_point_is_complete : publicPoint = none ↔ publicPointSource = .none
  deriving DecidableEq

/-- A row of `contractor_service_areas`. -/
structure ServiceArea where
  contractorId : Uuid
  regionId : Uuid
  deriving DecidableEq

/-- A row of `regions`, as far as searches read it. -/
structure Region where
  id : Uuid
  centroid : Point
  /-- The radius of the circle that stands in for the boundary, when it is known. -/
  approxRadiusM : Option ℕ
  deriving DecidableEq

/-- A row of `contractor_trades`. -/
structure ContractorTrade where
  contractorId : Uuid
  tradeId : Uuid
  deriving DecidableEq

/-- **The tables the directory reads.** -/
structure Db where
  contractors : List Contractor
  contractorTrades : List ContractorTrade
  serviceAreas : List ServiceArea
  regions : List Region
  vocabulary : Vocabulary
  /-- The primary key of `contractors`. -/
  contractors_nodup : (contractors.map Contractor.id).Nodup

/-! ### Filters -/

/-- Where the person searching is, and how far they want to look. -/
structure Near where
  lat : ℚ
  lon : ℚ
  /-- A radius that narrows what coverage selects. -/
  radiusM : Option ℚ
  deriving DecidableEq

/-- The centre. -/
def Near.center (n : Near) : Point := ⟨n.lat, n.lon⟩

/-- A viewport. -/
structure BoundingBox where
  minLat : ℚ
  minLon : ℚ
  maxLat : ℚ
  maxLon : ℚ
  deriving DecidableEq

/-- **What the directory is asked for.** -/
structure Filters where
  query : Option Text := none
  tradeIds : List Uuid := []
  verifiedOnly : Bool := false
  postalCode : Option Text := none
  near : Option Near := none
  bbox : Option BoundingBox := none
  /-- Trades the free text itself asked for. -/
  queryTradeIds : List Uuid := []
  deriving DecidableEq

/-- `DEFAULT_SERVICE_RADIUS_M`. -/
def defaultServiceRadiusM : ℕ := 40234

/-- `WORD_SIMILARITY_THRESHOLD`. -/
def wordSimilarityThreshold : ℚ := 5 / 10

/-- A list of trades as it is bound: no trades are no array. -/
def boundTrades (tradeIds : List Uuid) : Option (List Uuid) :=
  if tradeIds.isEmpty then none else some tradeIds

variable (env : Search.Env) (db : Db)

/-! ### Coverage -/

section Coverage

/-- **`contractors_serving`**: who covers the centre without being matched by the constant
radius, that is with a radius of their own, or by a region they named. An empty list is
`NULL`. -/
def contractorsServing (near : Option Near) : Option (List Uuid) :=
  match near with
  | none => none
  | some n =>
    let changed := db.contractors.filter fun c =>
      ((ne (some c.serviceRadiusM) (some defaultServiceRadiusM)).and
        (test (fun p r => dwithin env p n.center r) c.publicPoint
          (some (c.serviceRadiusM : ℚ)))).holds
    let named := db.serviceAreas.filter fun a => db.regions.any fun r =>
      r.id = a.regionId && dwithin env r.centroid n.center ((r.approxRadiusM.getD 0 : ℕ) : ℚ)
    let ids := (changed.map Contractor.id ++ named.map ServiceArea.contractorId).dedup
    if ids.isEmpty then none else some ids

/-- The test of coverage: no centre, the constant radius, or one of the identifiers. -/
def coverage (near : Option Near) (serving : Option (List Uuid)) (c : Contractor) : Truth :=
  (isNull near).or <|
    ((eq (some c.serviceRadiusM) (some defaultServiceRadiusM)).and
      (test (fun p n => dwithin env p n.center defaultServiceRadiusM) c.publicPoint near)).or
    ((isNotNull serving).and (eqAny (some c.id) serving))

/-- The test of the radius that narrows. -/
def narrowing (near : Option Near) (c : Contractor) : Truth :=
  (isNull (near.bind Near.radiusM)).or
    (test (fun p n => dwithin env p n.1 n.2) c.publicPoint
      (near.bind fun n => n.radiusM.map fun r => (n.center, r)))

/-- **What it is to cover a place**: the place is within the radius that the contractor
travels, or within a region that it named, of which an unknown extent is none. -/
def Covers (n : Near) (c : Contractor) : Prop :=
  (∃ p ∈ c.publicPoint, env.distance p n.center ≤ c.serviceRadiusM) ∨
    ∃ a ∈ db.serviceAreas, a.contractorId = c.id ∧ ∃ r ∈ db.regions, r.id = a.regionId ∧
      env.distance r.centroid n.center ≤ (r.approxRadiusM.getD 0 : ℕ)

variable {env db} {n : Near} {c : Contractor}

/-- Rows of one identifier are one row. -/
theorem eq_of_id_eq {c c' : Contractor} (hc : c ∈ db.contractors) (hc' : c' ∈ db.contractors)
    (h : c.id = c'.id) : c = c' :=
  List.inj_on_of_nodup_map db.contractors_nodup hc hc' h

/-- **Who is resolved ahead**: who covers the place with a radius of their own, or by a
region. -/
theorem mem_contractorsServing (hc : c ∈ db.contractors) :
    (∃ ids ∈ contractorsServing env db (some n), c.id ∈ ids) ↔
      (c.serviceRadiusM ≠ defaultServiceRadiusM ∧
        ∃ p ∈ c.publicPoint, env.distance p n.center ≤ c.serviceRadiusM) ∨
      ∃ a ∈ db.serviceAreas, a.contractorId = c.id ∧ ∃ r ∈ db.regions, r.id = a.regionId ∧
        env.distance r.centroid n.center ≤ (r.approxRadiusM.getD 0 : ℕ) := by
  have hlist : ∀ ids : List Uuid,
      (∃ l ∈ (if ids.isEmpty then none else some ids), c.id ∈ l) ↔ c.id ∈ ids := by
    intro ids
    rcases ids with _ | ⟨i, ids⟩ <;> simp
  rw [contractorsServing]
  simp only [hlist, List.mem_dedup, List.mem_append]
  refine or_congr ?_ ?_
  · rw [List.mem_map]
    constructor
    · rintro ⟨c', hc', hid⟩
      obtain ⟨hmem, hcond⟩ := List.mem_filter.mp hc'
      obtain rfl := eq_of_id_eq hmem hc hid
      simpa [holds_ne, holds_test, dwithin] using hcond
    · intro hcond
      refine ⟨c, List.mem_filter.mpr ⟨hc, ?_⟩, rfl⟩
      simpa [holds_ne, holds_test, dwithin] using hcond
  · simp only [List.mem_map, List.mem_filter, List.any_eq_true, Bool.and_eq_true,
      decide_eq_true_eq, dwithin]
    constructor
    · rintro ⟨a, ⟨ha, hr⟩, hid⟩
      exact ⟨a, ha, hid, hr⟩
    · rintro ⟨a, ha, hid, hr⟩
      exact ⟨a, ⟨ha, hr⟩, hid⟩

/-- The test of coverage, on the identifiers resolved ahead of it. -/
theorem holds_coverage (hc : c ∈ db.contractors) :
    (coverage env (some n) (contractorsServing env db (some n)) c).holds = true ↔
      Covers env db n c := by
  have hserving : ((isNotNull (contractorsServing env db (some n))).and
      (eqAny (some c.id) (contractorsServing env db (some n)))).holds = true ↔
      ∃ ids ∈ contractorsServing env db (some n), c.id ∈ ids := by
    rcases contractorsServing env db (some n) with _ | ids <;> simp [holds_eqAny]
  have hconstant : ((eq (some c.serviceRadiusM) (some defaultServiceRadiusM)).and
      (test (fun p n => dwithin env p n.center defaultServiceRadiusM) c.publicPoint
        (some n))).holds = true ↔ c.serviceRadiusM = defaultServiceRadiusM ∧
      ∃ p ∈ c.publicPoint, env.distance p n.center ≤ defaultServiceRadiusM := by
    rw [Truth.holds_and, Bool.and_eq_true, holds_eq, holds_test]
    simp [dwithin, eq_comm]
  -- the radius of the contractor is the default one or another
  have hradius : (c.serviceRadiusM = defaultServiceRadiusM ∧
        ∃ p ∈ c.publicPoint, env.distance p n.center ≤ defaultServiceRadiusM) ∨
      (c.serviceRadiusM ≠ defaultServiceRadiusM ∧
        ∃ p ∈ c.publicPoint, env.distance p n.center ≤ c.serviceRadiusM) ↔
      ∃ p ∈ c.publicPoint, env.distance p n.center ≤ c.serviceRadiusM := by
    rcases eq_or_ne c.serviceRadiusM defaultServiceRadiusM with heq | hne
    · simp [heq]
    · simp [hne]
  rw [coverage, Truth.holds_or, Truth.holds_or, Bool.or_eq_true, Bool.or_eq_true, hconstant,
    hserving, mem_contractorsServing hc, Covers, holds_isNull]
  simp only [Option.isNone_some, Bool.false_eq_true, false_or]
  rw [← or_assoc, hradius]

/-- The test of the radius that narrows. -/
theorem holds_narrowing :
    (narrowing env (some n) c).holds = true ↔
      ∀ r ∈ n.radiusM, ∃ p ∈ c.publicPoint, env.distance p n.center ≤ r := by
  rcases hr : n.radiusM with _ | r <;> simp [narrowing, hr, holds_test, dwithin]

/-- **Coverage is split soundly**: a contractor passes the test, with the identifiers resolved
ahead of it, exactly if it covers the place and, where a radius narrows the search, has a
point within that radius. -/
theorem coverage_iff (hc : c ∈ db.contractors) :
    ((coverage env (some n) (contractorsServing env db (some n)) c).and
        (narrowing env (some n) c)).holds = true ↔
      Covers env db n c ∧
        ∀ r ∈ n.radiusM, ∃ p ∈ c.publicPoint, env.distance p n.center ≤ r := by
  rw [Truth.holds_and, Bool.and_eq_true, holds_coverage hc, holds_narrowing]

/-- A contractor without a point that named a region. -/
def regional : Contractor where
  id := 1
  displayName := "Ibarra & Daughters Construction".toList
  bio := none
  verified := true
  postalCode := some "90026".toList
  ownerAddressPostalCode := none
  ownerAddressLine1 := none
  licenseAddressLine1 := some "1200 Sunset Blvd".toList
  publicPoint := none
  publicPointSource := .none
  serviceRadiusM := defaultServiceRadiusM
  googleRating := none
  googleReviewCount := none
  qualityScore := 1 / 2
  public_point_is_complete := by simp

/-- A contractor within its own, smaller radius of the origin. -/
def nearby : Contractor :=
  { regional with
    id := 2
    displayName := "Polar Air".toList
    publicPoint := some ⟨0, 2⟩
    publicPointSource := .zipCentroid
    serviceRadiusM := 8000
    public_point_is_complete := by simp }

/-- The two of them, with a region about the origin. -/
def twoContractors : Db where
  contractors := [regional, nearby]
  contractorTrades := []
  serviceAreas := [⟨1, 9⟩]
  regions := [⟨9, ⟨0, 0⟩, none⟩]
  vocabulary := ⟨[], []⟩
  contractors_nodup := by decide

/-- The one covers the origin by the region it named, without a point of its own. -/
theorem coverage_iff_regional :
    ((coverage Search.Env.plain (some ⟨0, 0, none⟩)
        (contractorsServing Search.Env.plain twoContractors (some ⟨0, 0, none⟩)) regional).and
        (narrowing Search.Env.plain (some ⟨0, 0, none⟩) regional)).holds = true ↔
      Covers Search.Env.plain twoContractors ⟨0, 0, none⟩ regional ∧
        ∀ r ∈ (none : Option ℚ), ∃ p ∈ regional.publicPoint,
          Search.Env.plain.distance p ⟨0, 0⟩ ≤ r :=
  coverage_iff (by simp [twoContractors])

end Coverage

/-! ### The predicate -/

/-- `contractors.search_doc`. -/
def Contractor.searchDoc (c : Contractor) : List Text :=
  [c.displayName, c.bio.getD [], c.postalCode.getD []]

/-- The ZIP code that the listing shows. -/
def Contractor.shownPostalCode (c : Contractor) : Option Text :=
  c.ownerAddressPostalCode.or c.postalCode

/-- Whether a contractor has one of some trades. -/
def inTrades (tradeIds : Option (List Uuid)) (c : Contractor) : Truth :=
  .ofBool (db.contractorTrades.any fun t =>
    t.contractorId = c.id && (eqAny (some t.tradeId) tradeIds).holds)

/-- Whether the name of a contractor is close to the query text. -/
def nearName (query : Option Text) (c : Contractor) : Truth :=
  test (fun name q => wordSimilarityThreshold ≤ env.wordSimilarity q name) (some c.displayName) query

/-- Whether a contractor's document matches the query text. -/
def matchesText (query : Option Text) (c : Contractor) : Truth :=
  test env.textMatches (some c.searchDoc) query

/-- Whether a contractor has one of the trades that the query text asks for. -/
def routedTo (f : Filters) (c : Contractor) : Truth :=
  (isNotNull (boundTrades f.queryTradeIds)).and (inTrades db (boundTrades f.queryTradeIds) c)

/-- **`PREDICATE`**: which contractors a search is about, with those resolved ahead of it. -/
def predicate (f : Filters) (serving : Option (List Uuid)) (c : Contractor) : Truth :=
  (coverage env f.near serving c).and <|
  (narrowing env f.near c).and <|
  ((isNull f.query).or <|
    (matchesText env f.query c).or <| (nearName env f.query c).or (routedTo db f c)).and <|
  ((Truth.ofBool f.verifiedOnly).not.or (.ofBool c.verified)).and <|
  ((isNull (boundTrades f.tradeIds)).or (inTrades db (boundTrades f.tradeIds) c)).and <|
  ((isNull f.postalCode).or (eq c.shownPostalCode f.postalCode)).and <|
  (isNull f.bbox).or
    (test (fun p b => env.inEnvelope ⟨b.minLat, b.minLon⟩ ⟨b.maxLat, b.maxLon⟩ p)
      c.publicPoint f.bbox)

/-- **The contractors that a search is about.** -/
def matching (f : Filters) : List Contractor :=
  db.contractors.filter fun c =>
    (predicate env db f (contractorsServing env db f.near) c).holds

variable {env db} {c : Contractor}

/-- To have one of some trades. -/
theorem holds_inTrades {ids : List Uuid} :
    (inTrades db (some ids) c).holds = true ↔
      ∃ t ∈ db.contractorTrades, t.contractorId = c.id ∧ t.tradeId ∈ ids := by
  simp [inTrades, holds_eqAny, Truth.holds_ofBool]

/-- To have one of the trades that the query text asks for. -/
theorem holds_routedTo {f : Filters} :
    (routedTo db f c).holds = true ↔
      ∃ t ∈ db.contractorTrades, t.contractorId = c.id ∧ t.tradeId ∈ f.queryTradeIds := by
  rcases hids : f.queryTradeIds with _ | ⟨i, ids⟩
  · simp [routedTo, boundTrades, hids]
  · simp [routedTo, boundTrades, hids, holds_inTrades]

/-- **A search, filter by filter.** -/
theorem mem_matching {f : Filters} :
    c ∈ matching env db f ↔
      c ∈ db.contractors ∧
      (∀ n ∈ f.near, Covers env db n c ∧
        ∀ r ∈ n.radiusM, ∃ p ∈ c.publicPoint, env.distance p n.center ≤ r) ∧
      (∀ q ∈ f.query, env.textMatches c.searchDoc q = true ∨
        wordSimilarityThreshold ≤ env.wordSimilarity q c.displayName ∨
        ∃ t ∈ db.contractorTrades, t.contractorId = c.id ∧ t.tradeId ∈ f.queryTradeIds) ∧
      (f.verifiedOnly = true → c.verified = true) ∧
      (f.tradeIds ≠ [] →
        ∃ t ∈ db.contractorTrades, t.contractorId = c.id ∧ t.tradeId ∈ f.tradeIds) ∧
      (∀ z ∈ f.postalCode, c.shownPostalCode = some z) ∧
      ∀ b ∈ f.bbox, ∃ p ∈ c.publicPoint,
        env.inEnvelope ⟨b.minLat, b.minLon⟩ ⟨b.maxLat, b.maxLon⟩ p = true := by
  have hplace : c ∈ db.contractors →
      (((coverage env f.near (contractorsServing env db f.near) c).holds = true ∧
        (narrowing env f.near c).holds = true) ↔
      ∀ n ∈ f.near, Covers env db n c ∧
        ∀ r ∈ n.radiusM, ∃ p ∈ c.publicPoint, env.distance p n.center ≤ r) := by
    intro hc
    rcases hn : f.near with _ | n
    · simp [coverage, narrowing]
    · simp [holds_coverage hc, holds_narrowing]
  have hquery : (((isNull f.query).or <|
      (matchesText env f.query c).or <| (nearName env f.query c).or (routedTo db f c)).holds
        = true) ↔
      ∀ q ∈ f.query, env.textMatches c.searchDoc q = true ∨
        wordSimilarityThreshold ≤ env.wordSimilarity q c.displayName ∨
        ∃ t ∈ db.contractorTrades, t.contractorId = c.id ∧ t.tradeId ∈ f.queryTradeIds := by
    rw [Truth.holds_or, Truth.holds_or, Truth.holds_or]
    simp only [Bool.or_eq_true, holds_routedTo]
    rcases hq : f.query with _ | q <;> simp [matchesText, nearName]
  have hverified : (((Truth.ofBool f.verifiedOnly).not.or (.ofBool c.verified)).holds = true) ↔
      (f.verifiedOnly = true → c.verified = true) := by
    rcases f.verifiedOnly <;> rcases c.verified <;> decide
  have htrades : (((isNull (boundTrades f.tradeIds)).or
      (inTrades db (boundTrades f.tradeIds) c)).holds = true) ↔
      (f.tradeIds ≠ [] →
        ∃ t ∈ db.contractorTrades, t.contractorId = c.id ∧ t.tradeId ∈ f.tradeIds) := by
    rcases f.tradeIds with _ | ⟨i, ids⟩ <;> simp [boundTrades, holds_inTrades]
  rw [matching, List.mem_filter]
  refine and_congr_right fun hc => ?_
  simp only [predicate, Truth.holds_and, Bool.and_eq_true, hquery, hverified, htrades,
    holds_isNull_or_eq, holds_isNull_or_test]
  rw [← and_assoc, hplace hc]

end Marketplace.Directory
