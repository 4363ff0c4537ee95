import Mathlib.Data.List.Dedup
import Marketplace.Enrichment.Dataset

/-!
# Reviews, told apart

A review comes without an identifier, and gets one that is made of its place, its reviewer, the
profile of the reviewer, and what it says. What drifts from one scrape to the next – how long ago it
was published, its number, how many there are – is left out, and a review that is there stays as it
is. So a review is stored once, however often it is scraped
(`Marketplace.Enrichment.stable_identity_iff`).

But whether a row has a review at all is asked of some names of its fields only, where everything
else is looked for under others too, and of its number. So a review whose reviewer, text and rating
go by other names is left out, or is there with its number, and gone without it.
-/

namespace Marketplace.Enrichment

/-! ### Drift -/

/-- What differs from one scrape of a review to the next. -/
def drifting : List String :=
  ["publishedAt", "published_at", "publishedAtDate", "published_at_date", "reviewNumber",
    "review_number", "reviewerTotalReviews", "reviewer_total_reviews", "placeTotalReviews",
    "place_total_reviews", "reviewPhotoCount", "review_photo_count", "reviewPhotoUrls",
    "review_photo_urls", "reviewerProfilePhotoUrl", "reviewer_profile_photo_url", "ownerReply",
    "owner_reply", "ownerReplyDate", "owner_reply_date", "likesCount", "likes_count", "scrapedAt",
    "scraped_at"]

/-- **Only what drifts differs.** -/
def SameButDrift (row row' : Row) : Prop :=
  ∀ name : String, name ∉ drifting → row.lookup name.toList = row'.lookup name.toList

variable {python : Python} {row row' : Row} {placeId : Text}

/-- What does not drift is found again. -/
theorem SameButDrift.first_eq (h : SameButDrift row row') {names : List String}
    (hnames : ∀ name ∈ names, name ∉ drifting) : first row names = first row' names := by
  rw [first, first]
  induction names with
  | nil => rfl
  | cons name names ih =>
    rw [List.findSome?_cons, List.findSome?_cons, h name (hnames name List.mem_cons_self),
      ih fun name hname => hnames name (List.mem_cons_of_mem _ hname)]

theorem SameButDrift.identityOf_eq (h : SameButDrift row row') :
    identityOf python placeId row = identityOf python placeId row' := by
  rw [identityOf, identityOf, h.first_eq (by decide), h.first_eq (by decide),
    h.first_eq (by decide)]

theorem SameButDrift.ratingOf_eq (h : SameButDrift row row') :
    ratingOf python row = ratingOf python row' := by
  rw [ratingOf, ratingOf, h.first_eq (by decide)]

/-! ### Identities -/

/-- No part of an identity has a zero byte. -/
def Identity.NoZero (x : Identity) : Prop :=
  ∀ part ∈ [x.placeId, x.reviewerName, x.reviewerProfileUrl, x.reviewText], Char.ofNat 0 ∉ part

/-- **What is digested tells identities apart.** -/
theorem Identity.digestInput_inj {x x' : Identity} (hx : x.NoZero) (hx' : x'.NoZero)
    (h : x.digestInput = x'.digestInput) : x = x' := by
  have hparts := congrArg (List.splitOn (Char.ofNat 0)) h
  rw [digestInput, digestInput, List.splitOn_intercalate _ hx (List.cons_ne_nil _ _),
    List.splitOn_intercalate _ hx' (List.cons_ne_nil _ _)] at hparts
  cases x
  cases x'
  simp_all

/-! ### Deliveries -/

/-- **`insert_reviews`**, which answers how many it was given: a review that is there stays. The
chunks that it writes them in make no difference. -/
def insertReviews (stored reviews : List GmapsReview) : List GmapsReview × ℕ :=
  (Sql.upsertAll GmapsReview.reviewId Sql.keep stored reviews, reviews.length)

/-- What is delivered: a dataset, and the places in it that are some contractor's. -/
structure Delivery where
  rows : List Json
  accepted : List Text

variable (python)

/-- The reviews of a delivery. -/
def Delivery.reviews (d : Delivery) : Except Raised (List GmapsReview) :=
  (readRows python d.rows).map fun rows => d.accepted.flatMap (splitReviews rows)

/-- **What is stored** of some deliveries, one after the other. -/
def ingest (stored : List GmapsReview) : List Delivery → Except Raised (List GmapsReview)
  | [] => .ok stored
  | d :: ds => do
    let reviews ← d.reviews python
    ingest (insertReviews stored reviews).1 ds

/-- The identity of the review of a row, if it has a rating, and its place is accepted. -/
def keptIdentity (accepted : List Text) : Json → Option Identity
  | .dict row =>
    (placeFromRow python row).toOption.bind fun place =>
      if (accepted.any fun p => p = place.placeId) && (ratingOf python row).isSome then
        some (identityOf python place.placeId row)
      else none
  | _ => none

/-- The identities of the reviews of some deliveries. -/
def identities (ds : List Delivery) : List Identity :=
  ds.flatMap fun d => d.rows.filterMap (keptIdentity python d.accepted)

/-- A row of some deliveries. -/
def IsRow (ds : List Delivery) (row : Row) : Prop := ∃ d ∈ ds, Json.dict row ∈ d.rows

/-- The row is one of a place. -/
def HasPlace (row : Row) (placeId : Text) : Prop :=
  ∃ place, placeFromRow python row = .ok place ∧ place.placeId = placeId

/-- **Identity is stable**, over some deliveries: a row with a rating gives a review, and a later row
of the place that differs in what drifts only gives the same identifier; different identities are
digested from different texts; and one review is stored of each identity. -/
structure StableIdentity (ds : List Delivery) : Prop where
  same : ∀ row row' placeId, IsRow ds row → IsRow ds row' → HasPlace python row placeId →
    HasPlace python row' placeId → (ratingOf python row).isSome = true → SameButDrift row row' →
      ∃ r r', reviewFromRow python row placeId = .ok (some r) ∧
        reviewFromRow python row' placeId = .ok (some r') ∧ r.reviewId = r'.reviewId
  apart : ∀ row row' placeId placeId', (identityOf python placeId row).NoZero →
    (identityOf python placeId' row').NoZero →
      identityOf python placeId row ≠ identityOf python placeId' row' →
        (identityOf python placeId row).digestInput ≠ (identityOf python placeId' row').digestInput
  stored : ∃ stored, ingest python [] ds = .ok stored ∧
    ((∀ x ∈ identities python ds, x.NoZero) →
      (stored.map GmapsReview.reviewId).Nodup ∧ (stored.map GmapsReview.reviewId).Perm
        ((identities python ds).dedup.map (Identity.reviewId python)))

variable {python}

/-! ### One review -/

/-- A row with a rating that has something of a review gives one, with the identifier that is
made of its identity. -/
theorem reviewFromRow_of_hasContent (placeId : Text)
    (hgiven : givenReviewId python row = none) (hrating : (ratingOf python row).isSome = true)
    (hcontent : hasContent row = true) :
    ∃ r, reviewFromRow python row placeId = .ok (some r) ∧
      r.reviewId = (identityOf python placeId row).reviewId python := by
  obtain ⟨rating, hrating⟩ := Option.isSome_iff_exists.mp hrating
  obtain ⟨r, hr⟩ := exists_reviewWithId hrating placeId
    (deriveReviewId python placeId row)
  refine ⟨r, ?_, (of_reviewWithId hr).1⟩
  rw [reviewFromRow, hgiven]
  simp only [hcontent, if_true, hr]
  rfl

/-- A row that gives a review and has no identifier has something of one. -/
theorem hasContent_of_reviewFromRow {r : ReviewRow} (hgiven : givenReviewId python row = none)
    (h : reviewFromRow python row placeId = .ok (some r)) : hasContent row = true := by
  by_contra hcontent
  rw [reviewFromRow, hgiven] at h
  simp only [hcontent] at h
  cases h

/-! ### Several deliveries -/

theorem mem_identities {ds : List Delivery} {x : Identity} :
    x ∈ identities python ds ↔ ∃ d ∈ ds, ∃ row place, Json.dict row ∈ d.rows ∧
      placeFromRow python row = .ok place ∧ place.placeId ∈ d.accepted ∧
        (ratingOf python row).isSome = true ∧ identityOf python place.placeId row = x := by
  have hkept : ∀ accepted json, keptIdentity python accepted json = some x ↔
      ∃ row place, json = .dict row ∧ placeFromRow python row = .ok place ∧
        place.placeId ∈ accepted ∧ (ratingOf python row).isSome = true ∧
          identityOf python place.placeId row = x := by
    intro accepted json
    cases json with
    | dict row =>
      rw [keptIdentity]
      cases hplace : placeFromRow python row <;> simp [Except.toOption, hplace, and_assoc]
    | null | bool | int | float | str | list => simp [keptIdentity]
  simp only [identities, List.mem_flatMap, List.mem_filterMap, hkept]
  constructor
  · rintro ⟨d, hd, json, hjson, row, place, rfl, h⟩
    exact ⟨d, hd, row, place, hjson, h⟩
  · rintro ⟨d, hd, row, place, hrow, h⟩
    exact ⟨d, hd, _, hrow, row, place, rfl, h⟩

/-- The reviews of a delivery that can be read. -/
theorem mem_reviews {d : Delivery} {reviews : List GmapsReview} (h : d.reviews python = .ok reviews)
    {v : GmapsReview} : v ∈ reviews ↔ ∃ row place, Json.dict row ∈ d.rows ∧
      placeFromRow python row = .ok place ∧ place.placeId ∈ d.accepted ∧
        reviewOfRow python row place.placeId = some v := by
  rw [Delivery.reviews] at h
  cases hrows : readRows python d.rows with
  | error e =>
    rw [hrows] at h
    cases h
  | ok out =>
    rw [hrows] at h
    cases h
    simp only [List.mem_flatMap, splitReviews, List.mem_filter, List.mem_filterMap,
      decide_eq_true_eq]
    constructor
    · rintro ⟨p, hp, ⟨dr, ⟨o, ho, hdr⟩, hv⟩, rfl⟩
      obtain rfl : o = some dr := hdr
      obtain ⟨row, place, hrow, hplace, rfl⟩ := (mem_of_readRows hrows).mp ho
      have hid : v.placeId = place.placeId := placeId_of_reviewOfRow v hv
      exact ⟨row, place, hrow, hplace, hid ▸ hp, hv⟩
    · rintro ⟨row, place, hrow, hplace, hp, hv⟩
      have hdr := (mem_of_readRows hrows).mpr ⟨row, place, hrow, hplace, rfl⟩
      exact ⟨place.placeId, hp, ⟨_, ⟨_, hdr, rfl⟩, hv⟩, placeId_of_reviewOfRow v hv⟩

theorem exists_reviews_iff {d : Delivery} : (∃ reviews, d.reviews python = .ok reviews) ↔
    ∀ row, Json.dict row ∈ d.rows → HasReadableLink python row := by
  rw [← exists_readRows_iff, Delivery.reviews]
  cases readRows python d.rows <;> simp [Except.map]

/-- **Deliveries are ingested** if each can be read. -/
theorem exists_ingest_iff {stored : List GmapsReview} {ds : List Delivery} :
    (∃ out, ingest python stored ds = .ok out) ↔ ∀ row, IsRow ds row → HasReadableLink python row := by
  induction ds generalizing stored with
  | nil =>
    refine iff_of_true ⟨stored, rfl⟩ ?_
    rintro row ⟨d, hd, -⟩
    cases hd
  | cons d ds ih =>
    have hcons : (∀ row, IsRow (d :: ds) row → HasReadableLink python row) ↔
        (∃ reviews, d.reviews python = .ok reviews) ∧
          ∀ row, IsRow ds row → HasReadableLink python row := by
      rw [exists_reviews_iff]
      simp only [IsRow, List.mem_cons, or_and_right, exists_or, exists_eq_left, or_imp, forall_and]
    rw [hcons, ingest]
    cases hreviews : d.reviews python with
    | error e => simp [bind, Except.bind]
    | ok reviews =>
      rw [← @ih (insertReviews stored reviews).1]
      exact ⟨fun h => ⟨⟨reviews, rfl⟩, h⟩, fun h => h.2⟩

/-- **What is stored**: each identifier once, and those of the reviews that were delivered. -/
theorem of_ingest {stored out : List GmapsReview} {ds : List Delivery}
    (h : ingest python stored ds = .ok out) (hstored : (stored.map GmapsReview.reviewId).Nodup) :
    (out.map GmapsReview.reviewId).Nodup ∧ ∀ id, id ∈ out.map GmapsReview.reviewId ↔
      id ∈ stored.map GmapsReview.reviewId ∨
        ∃ d ∈ ds, ∃ reviews, d.reviews python = .ok reviews ∧ id ∈ reviews.map GmapsReview.reviewId := by
  have hkeep : ∀ old r : GmapsReview, old.reviewId = r.reviewId →
      (Sql.keep old r).reviewId = r.reviewId := fun _ _ => id
  induction ds generalizing stored with
  | nil =>
    cases h
    exact ⟨hstored, fun id => by simp⟩
  | cons d ds ih =>
    rw [ingest] at h
    cases hreviews : d.reviews python with
    | error e =>
      rw [hreviews] at h
      cases h
    | ok reviews =>
      rw [hreviews] at h
      obtain ⟨hnodup, hmem⟩ := ih h (Sql.nodup_upsertAll hkeep hstored)
      refine ⟨hnodup, fun id => ?_⟩
      rw [hmem, insertReviews, Sql.mem_map_key_upsertAll hkeep, or_assoc]
      simp [hreviews]

/-- **Identity is stable** if and only if every row can be read, and every row of a place with a
rating has something of a review under the names that are asked for. -/
theorem stable_identity_iff (ds : List Delivery)
    (hgiven : ∀ row, IsRow ds row → givenReviewId python row = none)
    (hdigest : ∀ x ∈ identities python ds, ∀ x' ∈ identities python ds,
      (python.hexdigest x.digestInput).take 40 = (python.hexdigest x'.digestInput).take 40 →
        x.digestInput = x'.digestInput) :
    StableIdentity python ds ↔ (∀ row, IsRow ds row → HasReadableLink python row) ∧
      ∀ row placeId, IsRow ds row → HasPlace python row placeId →
        (ratingOf python row).isSome = true → hasContent row = true := by
  constructor
  · intro h
    obtain ⟨stored, hstored, -⟩ := h.stored
    refine ⟨exists_ingest_iff.mp ⟨stored, hstored⟩, fun row placeId hrow hplace hrating => ?_⟩
    obtain ⟨r, -, hr, -⟩ := h.same row row placeId hrow hrow hplace hplace hrating fun _ _ => rfl
    exact hasContent_of_reviewFromRow (hgiven row hrow) hr
  · rintro ⟨hlinks, hcontent⟩
    refine ⟨?_, fun row row' placeId placeId' hx hx' hne h => hne (Identity.digestInput_inj hx hx' h),
      ?_⟩
    · intro row row' placeId hrow hrow' hplace hplace' hrating hsame
      have hrating' : (ratingOf python row').isSome = true := hsame.ratingOf_eq ▸ hrating
      obtain ⟨r, hr, hid⟩ := reviewFromRow_of_hasContent placeId (hgiven row hrow)
        hrating (hcontent row placeId hrow hplace hrating)
      obtain ⟨r', hr', hid'⟩ := reviewFromRow_of_hasContent placeId (hgiven row' hrow')
        hrating' (hcontent row' placeId hrow' hplace' hrating')
      exact ⟨r, r', hr, hr', by rw [hid, hid', hsame.identityOf_eq]⟩
    · obtain ⟨stored, hstored⟩ := (@exists_ingest_iff python [] ds).mpr hlinks
      obtain ⟨hnodup, hmem⟩ := of_ingest hstored List.nodup_nil
      refine ⟨stored, hstored, fun hzero => ⟨hnodup, ?_⟩⟩
      -- different identities have different identifiers, so there is one of each
      have hinj : ∀ x ∈ (identities python ds).dedup, ∀ x' ∈ (identities python ds).dedup,
          x.reviewId python = x'.reviewId python → x = x' := by
        intro x hx x' hx' he
        rw [List.mem_dedup] at hx hx'
        exact Identity.digestInput_inj (hzero x hx) (hzero x' hx')
          (hdigest x hx x' hx' (List.append_cancel_left he))
      refine (List.perm_ext_iff_of_nodup hnodup ((List.nodup_dedup _).map_on hinj)).mpr fun id => ?_
      have hnone : id ∉ ([] : List GmapsReview).map GmapsReview.reviewId := List.not_mem_nil
      rw [hmem, or_iff_right hnone, List.mem_map]
      simp only [List.mem_dedup, mem_identities, List.mem_map]
      constructor
      · rintro ⟨d, hd, reviews, hreviews, v, hv, rfl⟩
        obtain ⟨row, place, hrow, hplace, haccepted, hreview⟩ := (mem_reviews hreviews).mp hv
        obtain ⟨reviewId, r, hid, hr, rfl⟩ := reviewOfRow_eq_some.mp hreview
        obtain ⟨hreviewId, -, hrating⟩ := of_reviewWithId hr
        refine ⟨_, ⟨d, hd, row, place, hrow, hplace, haccepted, by rw [hrating]; rfl, rfl⟩, ?_⟩
        rw [hgiven row ⟨d, hd, hrow⟩, Option.none_or] at hid
        split at hid
        · rw [hreviewId]
          exact Option.some.inj hid
        · cases hid
      · rintro ⟨_, ⟨d, hd, row, place, hrow, hplace, haccepted, hrating, rfl⟩, rfl⟩
        obtain ⟨reviews, hreviews⟩ := exists_reviews_iff.mpr fun row hrow => hlinks row ⟨d, hd, hrow⟩
        obtain ⟨r, hr, hid⟩ := reviewFromRow_of_hasContent place.placeId
          (hgiven row ⟨d, hd, hrow⟩) hrating
          (hcontent row place.placeId ⟨d, hd, hrow⟩ ⟨place, hplace, rfl⟩ hrating)
        refine ⟨d, hd, reviews, hreviews, r.toGmapsReview, (mem_reviews hreviews).mpr
          ⟨row, place, hrow, hplace, haccepted, ?_⟩, hid⟩
        rw [reviewOfRow, hr]
        rfl

/-- What a review of Ann, and one of Bob without a word, are digested to; nothing else is here. -/
def Python.plain : Python where
  str := fun _ => []
  parseInt := fun _ => none
  parseFloat := fun _ => none
  unquote := fun t => t
  hexdigest := fun t =>
    if t = (⟨"p1".toList, "Ann".toList, [], "Great".toList⟩ : Identity).digestInput then
      "75b465335e467020e336f0ec860227bc03d6df048627fa5ebd288830ff599e69".toList
    else "190035490964e2c8c9466058301edd936107aa25bb40fe5fcc0e9f3ae40295e3".toList

/-- A row of one place. -/
def placedRow (row : List (String × Json)) : Row :=
  ("placeId".toList, .str "p1".toList) :: ("placeName".toList, .str "Acme".toList) ::
    row.map fun x => (x.1.toList, x.2)

/-- A review of Ann, after some months, with a number. -/
def rowOfAnn (published : String) (number : ℤ) : Row :=
  placedRow [("reviewerName", .str "Ann".toList), ("reviewText", .str "Great".toList),
    ("rating", .int 5), ("publishedAt", .str published.toList), ("reviewNumber", .int number)]

/-- A review of Bob, without a word. -/
def rowOfBob : Row := placedRow [("reviewerName", .str "Bob".toList), ("rating", .int 4)]

/-- Two datasets of the place, some months apart. -/
def monthsApart : List Delivery :=
  [⟨[.dict (rowOfAnn "4 months ago" 1), .dict rowOfBob], ["p1".toList]⟩,
    ⟨[.dict (rowOfAnn "5 months ago" 9)], ["p1".toList]⟩]

/-- The rows of the two datasets. -/
theorem isRow_monthsApart (h : IsRow monthsApart row) :
    row = rowOfAnn "4 months ago" 1 ∨ row = rowOfBob ∨ row = rowOfAnn "5 months ago" 9 := by
  obtain ⟨d, hd, hrow⟩ := h
  simp only [monthsApart, List.mem_cons, List.not_mem_nil, or_false] at hd
  rcases hd with rfl | rfl
  · simp only [List.mem_cons, Json.dict.injEq, List.not_mem_nil, or_false] at hrow
    exact hrow.imp id .inl
  · simp only [List.mem_singleton, Json.dict.injEq] at hrow
    exact .inr (.inr hrow)

/-- Identity is stable over two datasets of a place. -/
theorem stable_identity_iff_monthsApart : StableIdentity .plain monthsApart := by
  refine (stable_identity_iff monthsApart ?_ ?_).mpr ⟨?_, ?_⟩
  · intro row hrow
    rcases isRow_monthsApart hrow with rfl | rfl | rfl <;> decide +kernel
  · decide +kernel
  · intro row hrow hnone
    rcases isRow_monthsApart hrow with rfl | rfl | rfl <;> exact absurd hnone (by decide +kernel)
  · intro row placeId hrow _ _
    rcases isRow_monthsApart hrow with rfl | rfl | rfl <;> decide +kernel

/-- A review of Ann whose fields go by their other names. -/
def snakeRow (rest : List (String × Json)) : Row :=
  placedRow ([("reviewer_name", .str "Ann".toList), ("review_text", .str "Great".toList),
    ("stars", .int 5)] ++ rest)

/-- The review with its number, and without it later. -/
def numberGone : List Delivery :=
  [⟨[.dict (snakeRow [("reviewNumber", .int 1)])], ["p1".toList]⟩,
    ⟨[.dict (snakeRow [])], ["p1".toList]⟩]

theorem sameButDrift_numberGone :
    SameButDrift (snakeRow [("reviewNumber", .int 1)]) (snakeRow []) := by
  intro name hname
  have hne : name.toList ≠ "reviewNumber".toList := by
    rintro he
    rw [String.toList_inj.mp he] at hname
    exact hname (by decide)
  have happend : snakeRow [("reviewNumber", .int 1)] =
      snakeRow [] ++ [("reviewNumber".toList, .int 1)] := rfl
  rw [happend, List.lookup_append, List.lookup_cons, beq_false_of_ne hne]
  simp

/-- **A review that goes with its number.** -/
theorem not_stable_identity :
    ¬ ∀ ds, (∀ row, IsRow ds row → givenReviewId .plain row = none) →
      (∀ x ∈ identities .plain ds, x.NoZero) → StableIdentity .plain ds := by
  intro h
  have hgiven : ∀ row, IsRow numberGone row → givenReviewId .plain row = none := by
    rintro row ⟨d, hd, hrow⟩
    simp only [numberGone, List.mem_cons, List.not_mem_nil, or_false] at hd
    rcases hd with rfl | rfl <;> simp only [List.mem_singleton, Json.dict.injEq] at hrow <;>
      rw [hrow] <;> decide +kernel
  have hzero : ∀ x ∈ identities .plain numberGone, x.NoZero := by
    unfold Identity.NoZero
    decide +kernel
  obtain ⟨r, r', -, hr', -⟩ := (h numberGone hgiven hzero).same
    (snakeRow [("reviewNumber", .int 1)]) (snakeRow []) "p1".toList
    ⟨_, List.mem_cons_self, List.mem_cons_self⟩
    ⟨_, List.mem_cons_of_mem _ List.mem_cons_self, List.mem_cons_self⟩
    ⟨_, rfl, by decide +kernel⟩ ⟨_, rfl, by decide +kernel⟩ (by decide +kernel)
    sameButDrift_numberGone
  have hnone : reviewFromRow .plain (snakeRow []) "p1".toList = .ok none := rfl
  rw [hnone] at hr'
  cases hr'

end Marketplace.Enrichment
