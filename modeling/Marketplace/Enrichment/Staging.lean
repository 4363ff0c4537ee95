import Mathlib.Data.Rat.Defs
import Marketplace.Auth.Text
import Marketplace.Sql.Upsert

/-!
# The staging tables of the enrichment

What is scraped about contractors stands in tables of its own, which nothing but the enrichment
writes: the places that were found, their reviews, which place is which contractor
(`Marketplace.Enrichment.PlaceMatch`), and what was asked about whom. A store of these tables comes
with its keys and its foreign keys.

A match says how sure it is, and has the parts of its score that are read later on. A score is a
number, of which only the order matters.
-/

namespace Marketplace.Enrichment

/-! ### Rows -/

/-- `match_status`. -/
inductive MatchStatus
  | confirmed
  | needsReview
  | rejected
  deriving DecidableEq

/-- The parts of a score that are read later on. -/
structure ScoreComponents where
  nameSimilarity : Option ℚ
  normalisedPlaceName : Option Text
  deriving DecidableEq

/-- A row of `gmaps_places`. -/
structure Place where
  placeId : Text
  placeName : Text
  placeAddress : Option Text := none
  placeCategory : Option Text := none
  overallRating : Option ℚ := none
  totalReviews : Option ℤ := none
  placeUrl : Option Text := none
  lastScrapedAt : Instant := 0
  deriving DecidableEq

/-- A row of `gmaps_reviews`. -/
structure GmapsReview where
  reviewId : Text
  placeId : Text
  reviewNumber : Option ℤ := none
  reviewerName : Option Text := none
  rating : ℚ
  publishedAtRaw : Option Text := none
  reviewText : Option Text := none
  reviewPhotoCount : Option ℤ := none
  ownerReply : Option Text := none
  deriving DecidableEq

/-- A row of `contractor_place_matches`. -/
structure PlaceMatch where
  contractorId : Uuid
  placeId : Text
  matchStatus : MatchStatus
  matchScore : ℚ
  scoreComponents : ScoreComponents
  queryUsed : Text := []
  matchedAt : Instant := 0
  deriving DecidableEq

/-- The primary key of the table. -/
def PlaceMatch.key (m : PlaceMatch) : Uuid × Text := (m.contractorId, m.placeId)

/-- The match is not rejected. -/
def PlaceMatch.isLive (m : PlaceMatch) : Bool := m.matchStatus ≠ .rejected

/-- What became of a question about a contractor. -/
inductive Outcome
  | scored (status : MatchStatus)
  | noResult
  deriving DecidableEq

/-- A row of `place_match_attempts`. -/
structure Attempt where
  contractorId : Uuid
  queryUsed : Text
  outcome : Outcome
  placeId : Option Text := none
  matchScore : Option ℚ := none
  attemptedAt : Instant
  deriving DecidableEq

/-! ### The tables -/

/-- **The staging tables**, with their keys: a place is there once, a review is there once, and a
contractor and a place are matched at most once; reviews and matches are of places that are
there. -/
structure Staging where
  places : List Place := []
  reviews : List GmapsReview := []
  placeMatches : List PlaceMatch := []
  attempts : List Attempt := []
  places_key : (places.map Place.placeId).Nodup := by simp
  reviews_key : (reviews.map GmapsReview.reviewId).Nodup := by simp
  placeMatches_key : (placeMatches.map PlaceMatch.key).Nodup := by simp
  reviews_place : ∀ v ∈ reviews, v.placeId ∈ places.map Place.placeId := by simp
  placeMatches_place : ∀ m ∈ placeMatches, m.placeId ∈ places.map Place.placeId := by simp

namespace Staging

variable (s : Staging)

/-- The reviews of a place. -/
def reviewsOf (placeId : Text) : List GmapsReview := s.reviews.filter fun v => v.placeId = placeId

/-- The place with an identifier. -/
def placeOf (placeId : Text) : Option Place := s.places.find? fun p => p.placeId = placeId

variable {s}

/-- A review of a place is known by its identifier. -/
theorem nodup_reviewsOf (placeId : Text) :
    ((s.reviewsOf placeId).map GmapsReview.reviewId).Nodup :=
  s.reviews_key.sublist (List.filter_sublist.map _)

theorem placeOf_eq_some {placeId : Text} {p : Place} :
    s.placeOf placeId = some p ↔ p ∈ s.places ∧ p.placeId = placeId :=
  Sql.find?_key_eq_some s.places_key

/-- The place of a match is there. -/
theorem exists_placeOf {m : PlaceMatch} (h : m ∈ s.placeMatches) :
    ∃ p, s.placeOf m.placeId = some p := by
  obtain ⟨p, hp, hid⟩ := List.mem_map.mp (s.placeMatches_place m h)
  exact ⟨p, placeOf_eq_some.mpr ⟨hp, hid⟩⟩

end Staging

end Marketplace.Enrichment
