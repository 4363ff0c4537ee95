import Marketplace.Enrichment.Batches
import Marketplace.Enrichment.Strings

/-!
# Rows of a dataset

A row of a dataset is a place, and most often a review of it. Its fields are looked for under two
names, or more (`Marketplace.Enrichment.first`), and are read as texts and numbers as far as they
can be. A row without a key of a place, or without its name, cannot be used, nor can a review without
a rating (`Marketplace.Enrichment.readRow`).

The key of a place is its identifier, or else what its link has of it; a review without an identifier
gets one that is derived from what it says (`Marketplace.Enrichment.deriveReviewId`). Numbers are
exact here, and finite.
-/

namespace Marketplace.Enrichment

/-! ### Values -/

/-- What `json` reads. -/
inductive Json
  | null
  | bool (b : Bool)
  | int (n : ℤ)
  | float (x : ℚ)
  | str (t : Text)
  | list (xs : List Json)
  | dict (entries : List (Text × Json))

namespace Json

/-- The value is `None`. -/
def isNull : Json → Bool
  | null => true
  | _ => false

/-- The truth of a value. -/
def truthy : Json → Bool
  | null => false
  | bool b => b
  | int n => n ≠ 0
  | float x => x ≠ 0
  | str t => !t.isEmpty
  | list xs => !xs.isEmpty
  | dict entries => !entries.isEmpty

end Json

/-- A row: what it has under each name. -/
abbrev Row : Type := List (Text × Json)

/-- **The library of the language**, as far as it is not spelt out here. -/
structure Python where
  /-- `str`, of what is no text. -/
  str : Json → Text
  /-- `int`, of a text. -/
  parseInt : Text → Option ℤ
  /-- `float`, of a text. -/
  parseFloat : Text → Option ℚ
  /-- `urllib.parse.unquote`. -/
  unquote : Text → Text
  /-- `sha256(…).hexdigest()`, of a text in UTF-8. -/
  hexdigest : Text → Text

/-- `_first`: what there is under the first of some names that has something. -/
def first (row : Row) (names : List String) : Option Json :=
  names.findSome? fun name => (row.lookup name.toList).filter fun v => !v.isNull

namespace Python

variable (python : Python)

/-- `str`. -/
def toStr : Json → Text
  | .str t => t
  | v => python.str v

/-- `_as_text`. -/
def asText (v : Option Json) : Option Text := v.map python.toStr

/-- `_as_int`. -/
def asInt : Option Json → Option ℤ
  | some (.int n) => some n
  | some (.float x) => some (x.num.tdiv x.den)
  | some (.str t) => python.parseInt t
  | _ => none

/-- `_as_float`. -/
def asFloat : Option Json → Option ℚ
  | some (.int n) => some n
  | some (.float x) => some x
  | some (.str t) => python.parseFloat t
  | _ => none

/-- `_PRIVATE_USE`. -/
def isPrivateUse (c : Char) : Bool := 0xE000 ≤ c.toNat && c.toNat ≤ 0xF8FF

/-- `clean_text`. -/
def cleanText (v : Option Json) : Option Text :=
  (v.map fun v => strip ((python.toStr v).filter fun c => !isPrivateUse c)).filter
    fun t => !t.isEmpty

end Python

/-- `_as_bool`. No letter beyond ASCII is made one of these words by `str.lower`. -/
def asBool : Option Json → Option Bool
  | some (.bool b) => some b
  | some (.str t) =>
    let t := t.map Char.toLower
    if t = "true".toList ∨ t = "yes".toList ∨ t = "1".toList then some true
    else if t = "false".toList ∨ t = "no".toList ∨ t = "0".toList then some false
    else none
  | _ => none

/-! ### Patterns -/

/-- What a pattern takes of the start of a text, and the rest of it. -/
abbrev Pattern : Type := Text → Option (Text × Text)

namespace Pattern

/-- One character. -/
def one (p : Char → Bool) : Pattern := fun s =>
  if (s.head?.any p) = true then some (s.take 1, s.tail) else none

/-- As many characters as there are, and one at least. -/
def many (p : Char → Bool) : Pattern := fun s =>
  if (s.head?.any p) = true then some (s.takeWhile p, s.dropWhile p) else none

/-- One pattern after another. -/
def andThen (x y : Pattern) : Pattern := fun s =>
  (x s).bind fun taken => (y taken.2).map fun next => (taken.1 ++ next.1, next.2)

/-- The characters of a text, in either case: `ſ` is an `s` in another one. -/
def caseless (t : Text) : Pattern :=
  t.foldr (fun c rest => (one fun d => d.toLower = c || (c = 's' && d = 'ſ')).andThen rest)
    fun s => some ([], s)

/-- The characters of a text. -/
def literal (t : Text) : Pattern :=
  t.foldr (fun c rest => (one fun d => d = c).andThen rest) fun s => some ([], s)

/-- `re.search`: what the second pattern takes after the first, at the first place that they
take. -/
def search (mark taken : Pattern) (s : Text) : Option Text :=
  s.tails.findSome? fun s => (mark s).bind fun x => (taken x.2).map Prod.fst

end Pattern

/-- A digit of a hexadecimal number, in either case. -/
def isHexDigit (c : Char) : Bool :=
  c.isDigit || ('a' ≤ c.toLower && c.toLower ≤ 'f')

/-- `_FEATURE_ID`: `!1s(0x[0-9a-f]+:0x[0-9a-f]+)`. -/
def featureId (url : Text) : Option Text :=
  Pattern.search (.caseless "!1s".toList)
    (.andThen (.caseless "0x".toList) (.andThen (.many isHexDigit)
      (.andThen (.caseless ":0x".toList) (.many isHexDigit)))) url

/-- `_KG_ID`: `!16s([^!?&]+)`. -/
def kgId (url : Text) : Option Text :=
  Pattern.search (.literal "!16s".toList)
    (.many fun c => c ≠ '!' && c ≠ '?' && c ≠ '&') url

/-! ### Places -/

/-- Why a row cannot be read. -/
inductive Raised
  /-- `MalformedRow`, which is logged, and the row skipped. -/
  | malformed (message : Text)
  /-- `TypeError`, which nothing catches. -/
  | typeError
  deriving DecidableEq

variable (python : Python)

/-- `place_key`: what the link of a place has of its identifiers. -/
def placeKey (row : Row) : Except Raised (Option Text) :=
  match first row ["placeUrl", "place_url"] with
  | some (.str url) =>
    .ok (if url.isEmpty then none
      else ((featureId url).map fun id => id.map Char.toLower).or ((kgId url).map python.unquote))
  | some v => if v.truthy then .error .typeError else .ok none
  | none => .ok none

/-- The key of the place of a row, which is no empty text. -/
def placeIdOf (row : Row) : Except Raised (Option Text) :=
  match (python.asText (first row ["placeId", "place_id"])).filter fun id => !id.isEmpty with
  | some id => .ok (some id)
  | none => (placeKey python row).map fun id => id.filter fun id => !id.isEmpty

/-- **`place_from_row`**. -/
def placeFromRow (row : Row) : Except Raised Place := do
  let placeId ← placeIdOf python row
  match placeId, python.cleanText (first row ["placeName", "place_name"]) with
  | none, _ => throw (.malformed "row carries neither a placeId nor a usable placeUrl".toList)
  | some placeId, none =>
    throw (.malformed ("place ".toList ++ placeId ++ " carries no placeName".toList))
  | some placeId, some name => pure {
      placeId := placeId
      placeName := name
      placeAddress := python.cleanText (first row ["placeAddress", "place_address"])
      placeCategory := python.cleanText (first row ["placeCategory", "place_category"])
      overallRating := python.asFloat (first row ["placeOverallRating", "place_overall_rating"])
      totalReviews := python.asInt (first row ["placeTotalReviews", "place_total_reviews"])
      placeUrl := python.asText (first row ["placeUrl", "place_url"]) }

/-! ### Reviews -/

/-- What `review_from_row` makes of a row: a review, with the columns that nothing reads later. -/
structure ReviewRow extends GmapsReview where
  reviewerProfileUrl : Option Text
  reviewerPhotoUrl : Option Text
  reviewerTotalReviews : Option ℤ
  reviewerIsLocalGuide : Option Bool
  publishedAt : Option Text
  reviewTextOriginal : Option Text
  reviewPhotoUrls : List Json
  ownerReplyDate : Option Text
  likesCount : ℤ
  visitType : Option Text
  scrapedAt : Option Text

/-- What a review is told apart by: its place, its reviewer, the profile of the reviewer, and what
it says. -/
structure Identity where
  placeId : Text
  reviewerName : Text
  reviewerProfileUrl : Text
  reviewText : Text
  deriving DecidableEq

/-- The identity of the review of a row. What is absent is empty. -/
def identityOf (placeId : Text) (row : Row) : Identity where
  placeId := placeId
  reviewerName := (python.asText (first row ["reviewerName", "reviewer_name"])).getD []
  reviewerProfileUrl :=
    (python.asText (first row ["reviewerProfileUrl", "reviewer_profile_url"])).getD []
  reviewText := (python.asText (first row ["reviewText", "review_text"])).getD []

/-- What is digested of an identity: its parts, with a zero byte between them. -/
def Identity.digestInput (x : Identity) : Text :=
  [Char.ofNat 0].intercalate [x.placeId, x.reviewerName, x.reviewerProfileUrl, x.reviewText]

/-- The identifier that is made of an identity. -/
def Identity.reviewId (x : Identity) : Text :=
  "d:".toList ++ (python.hexdigest x.digestInput).take 40

/-- **`derive_review_id`**. -/
def deriveReviewId (placeId : Text) (row : Row) : Text := (identityOf python placeId row).reviewId python

/-- The row has something of a review. -/
def hasContent (row : Row) : Bool :=
  ["reviewerName", "reviewText", "rating", "reviewNumber"].any fun key => (first row [key]).isSome

/-- The identifier of a review that has one, which is no empty text. -/
def givenReviewId (row : Row) : Option Text :=
  (python.asText (first row ["reviewId", "review_id"])).filter fun id => !id.isEmpty

/-- The rating of a review. -/
def ratingOf (row : Row) : Option ℚ :=
  python.asFloat (first row ["rating", "reviewRating", "stars"])

/-- The photos of a review. -/
def photosOf (row : Row) : List Json :=
  match first row ["reviewPhotoUrls", "review_photo_urls"] with
  | some (.list photos) => photos
  | some photo => [photo]
  | none => []

/-- The review of a row, once it has an identifier. -/
def reviewWithId (row : Row) (placeId reviewId : Text) : Except Text ReviewRow :=
  match ratingOf python row with
  | none => .error ("review ".toList ++ reviewId ++ " carries no rating".toList)
  | some rating => .ok {
      reviewId := reviewId
      placeId := placeId
      reviewNumber := python.asInt (first row ["reviewNumber", "review_number"])
      reviewerName := python.asText (first row ["reviewerName", "reviewer_name"])
      reviewerProfileUrl :=
        python.asText (first row ["reviewerProfileUrl", "reviewer_profile_url"])
      reviewerPhotoUrl :=
        python.asText (first row ["reviewerProfilePhotoUrl", "reviewer_profile_photo_url"])
      reviewerTotalReviews :=
        python.asInt (first row ["reviewerTotalReviews", "reviewer_total_reviews"])
      reviewerIsLocalGuide :=
        asBool (first row ["reviewerIsLocalGuide", "reviewer_is_local_guide"])
      rating := rating
      publishedAtRaw := python.asText (first row ["publishedAt", "published_at"])
      publishedAt := python.asText (first row ["publishedAtDate", "published_at_date"])
      reviewText := python.cleanText (first row ["reviewText", "review_text"])
      reviewTextOriginal :=
        python.asText (first row ["reviewTextOriginal", "review_text_original"])
      reviewPhotoUrls := photosOf row
      reviewPhotoCount := some
        ((python.asInt (first row ["reviewPhotoCount", "review_photo_count"])).getD
          (photosOf row).length)
      ownerReply := python.asText (first row ["ownerReply", "owner_reply"])
      ownerReplyDate := python.asText (first row ["ownerReplyDate", "owner_reply_date"])
      likesCount := (python.asInt (first row ["likesCount", "likes_count"])).getD 0
      visitType := python.asText (first row ["visitType", "visit_type"])
      scrapedAt := python.asText (first row ["scrapedAt", "scraped_at"]) }

/-- **`review_from_row`**: a row without anything of a review is a place without reviews. -/
def reviewFromRow (row : Row) (placeId : Text) : Except Text (Option ReviewRow) :=
  match givenReviewId python row with
  | some reviewId => (reviewWithId python row placeId reviewId).map some
  | none =>
    if hasContent row then
      (reviewWithId python row placeId (deriveReviewId python placeId row)).map some
    else .ok none

/-! ### Datasets -/

/-- The review of a row that can be used. -/
def reviewOfRow (row : Row) (placeId : Text) : Option GmapsReview :=
  (reviewFromRow python row placeId).toOption.join.map ReviewRow.toGmapsReview

variable {python} {row : Row} {placeId : Text} {v : GmapsReview}

/-- **When a row has a review**: it has a rating, and an identifier, or something that one may be
derived for. -/
theorem reviewOfRow_eq_some :
    reviewOfRow python row placeId = some v ↔ ∃ reviewId r,
      (givenReviewId python row).or (if hasContent row = true then
        some (deriveReviewId python placeId row) else none) = some reviewId ∧
      reviewWithId python row placeId reviewId = .ok r ∧ r.toGmapsReview = v := by
  rw [reviewOfRow, reviewFromRow]
  cases hgiven : givenReviewId python row with
  | some reviewId =>
    cases hreview : reviewWithId python row placeId reviewId <;>
      simp [Except.map, Except.toOption, hreview]
  | none =>
    by_cases hcontent : hasContent row = true
    · cases hreview : reviewWithId python row placeId (deriveReviewId python placeId row) <;>
        simp [Except.map, Except.toOption, hcontent, hreview]
    · simp [Except.toOption, hcontent]

/-- A review that has a rating can be used. -/
theorem exists_reviewWithId {rating : ℚ} (h : ratingOf python row = some rating)
    (placeId reviewId : Text) : ∃ r, reviewWithId python row placeId reviewId = .ok r := by
  rw [reviewWithId, h]
  exact ⟨_, rfl⟩

/-- What is known of a review that can be used. -/
theorem of_reviewWithId {reviewId : Text} {r : ReviewRow}
    (h : reviewWithId python row placeId reviewId = .ok r) :
    r.reviewId = reviewId ∧ r.placeId = placeId ∧ ratingOf python row = some r.rating := by
  rw [reviewWithId] at h
  split at h
  · cases h
  next rating hrating =>
    cases h
    exact ⟨rfl, rfl, hrating⟩

/-- A review is one of the place of its row. -/
theorem placeId_of_reviewOfRow : ∀ v ∈ reviewOfRow python row placeId, v.placeId = placeId := by
  intro v hv
  obtain ⟨reviewId, r, -, hr, rfl⟩ := reviewOfRow_eq_some.mp hv
  exact (of_reviewWithId hr).2.1

variable (python)

/-- A row of a place: the place, and the review if there is one. -/
def datasetRow (row : Row) (place : Place) : DatasetRow where
  place := place
  review := reviewOfRow python row place.placeId
  review_place := placeId_of_reviewOfRow

/-- **What a dataset has in a row**: nothing, where it cannot be read. -/
def readRow : Json → Except Raised (Option DatasetRow)
  | .dict row =>
    match placeFromRow python row with
    | .ok place => .ok (some (datasetRow python row place))
    | .error (.malformed _) => .ok none
    | .error .typeError => .error .typeError
  | _ => .ok none

/-- **The rows of a dataset**, as `split_dataset` reads them. -/
def readRows (rows : List Json) : Except Raised (List (Option DatasetRow)) :=
  rows.mapM (readRow python)

variable {python} {rows : List Json} {out : List (Option DatasetRow)} {place : Place}

/-- The rows of a dataset are read one by one. -/
theorem readRows_eq_ok_iff :
    readRows python rows = .ok out ↔ rows.map (readRow python) = out.map Except.ok := by
  rw [readRows]
  induction rows generalizing out with
  | nil => cases out <;> simp [pure, Except.pure]
  | cons row rows ih =>
    rw [List.mapM_cons, List.map_cons]
    cases hrow : readRow python row with
    | error e => cases out <;> simp [bind, Except.bind]
    | ok read =>
      cases hrows : rows.mapM (readRow python) with
      | error e =>
        rw [hrows] at ih
        cases out <;> simp [bind, Except.bind, ← ih]
      | ok reads =>
        rw [hrows] at ih
        cases out <;> simp [bind, Except.bind, pure, Except.pure, ← ih]

/-- A row that has a place. -/
theorem mem_of_readRows {d : DatasetRow} (h : readRows python rows = .ok out) :
    some d ∈ out ↔ ∃ row place, Json.dict row ∈ rows ∧ placeFromRow python row = .ok place ∧
      d = datasetRow python row place := by
  have hread : some d ∈ out ↔ ∃ json ∈ rows, readRow python json = .ok (some d) := by
    rw [← List.mem_map_of_injective (fun _ _ => Except.ok.inj), ← readRows_eq_ok_iff.mp h,
      List.mem_map]
  rw [hread]
  constructor
  · rintro ⟨json, hjson, hd⟩
    cases json with
    | dict row =>
      simp only [readRow] at hd
      split at hd
      next place hplace => exact ⟨row, place, hjson, hplace, (Option.some.inj (Except.ok.inj hd)).symm⟩
      · cases hd
      · cases hd
    | null | bool | int | float | str | list => cases hd
  · rintro ⟨row, place, hrow, hplace, rfl⟩
    exact ⟨.dict row, hrow, by rw [readRow, hplace]⟩

/-- The link of a row is a text, if the key of the place is looked for in it. -/
def HasReadableLink (python : Python) (row : Row) : Prop :=
  (python.asText (first row ["placeId", "place_id"])).filter (fun id => !id.isEmpty) = none →
    ∀ v, first row ["placeUrl", "place_url"] = some v → v.truthy = true → ∃ url, v = .str url

/-- The key of a place cannot be looked for in a link that is no text, and fails in no other way. -/
theorem placeKey_cases :
    (∃ id, placeKey python row = .ok id) ∧ (∀ v, first row ["placeUrl", "place_url"] = some v →
        v.truthy = true → ∃ url, v = .str url) ∨
      placeKey python row = .error .typeError ∧ ∃ v, first row ["placeUrl", "place_url"] = some v ∧
        v.truthy = true ∧ ∀ url, v ≠ .str url := by
  rw [placeKey]
  split
  next url hurl =>
    exact .inl ⟨⟨_, rfl⟩, fun v hv _ => ⟨url, Option.some.inj (hv.symm.trans hurl)⟩⟩
  next v hurl hv =>
    by_cases htrue : v.truthy = true
    · rw [if_pos htrue]
      exact .inr ⟨rfl, v, hv, htrue, hurl⟩
    · rw [if_neg htrue]
      refine .inl ⟨⟨_, rfl⟩, fun w hw hwtrue => absurd hwtrue ?_⟩
      rwa [Option.some.inj (hw.symm.trans hv)]
  next hnone =>
    refine .inl ⟨⟨_, rfl⟩, fun v hv => ?_⟩
    rw [hnone] at hv
    cases hv

theorem placeIdOf_cases :
    (∃ id, placeIdOf python row = .ok id) ∧ HasReadableLink python row ∨
      placeIdOf python row = .error .typeError ∧ ¬ HasReadableLink python row := by
  rw [placeIdOf, HasReadableLink]
  cases (python.asText (first row ["placeId", "place_id"])).filter fun id => !id.isEmpty with
  | some id => exact .inl ⟨⟨_, rfl⟩, fun h => absurd h (Option.some_ne_none id)⟩
  | none =>
    rcases @placeKey_cases python row with ⟨⟨id, hid⟩, hlink⟩ | ⟨herror, v, hv, htrue, hne⟩
    · exact .inl ⟨⟨_, by rw [hid]; rfl⟩, fun _ => hlink⟩
    · refine .inr ⟨by rw [herror]; rfl, fun h => ?_⟩
      obtain ⟨url, hurl⟩ := h rfl v hv htrue
      exact hne url hurl

/-- **When a row can be read**: its link is a text, or is not needed. -/
theorem exists_readRow_iff :
    (∃ d, readRow python (.dict row) = .ok d) ↔ HasReadableLink python row := by
  rw [readRow, placeFromRow]
  rcases @placeIdOf_cases python row with ⟨⟨id, hid⟩, hlink⟩ | ⟨herror, hlink⟩
  · rw [hid]
    refine iff_of_true ?_ hlink
    cases id <;> cases python.cleanText (first row ["placeName", "place_name"]) <;> exact ⟨_, rfl⟩
  · rw [herror]
    refine iff_of_false ?_ hlink
    rintro ⟨d, hd⟩
    cases hd

/-- **When a dataset can be read**: every row of it can. -/
theorem exists_readRows_iff :
    (∃ out, readRows python rows = .ok out) ↔
      ∀ row, Json.dict row ∈ rows → HasReadableLink python row := by
  have hother : ∀ json, (∃ d, readRow python json = .ok d) ↔
      ∀ row, json = .dict row → HasReadableLink python row := by
    intro json
    cases json with
    | dict row =>
      rw [exists_readRow_iff]
      exact ⟨fun h row' he => Json.dict.inj he ▸ h, fun h => h row rfl⟩
    | null | bool | int | float | str | list =>
      exact iff_of_true ⟨none, rfl⟩ fun row he => by cases he
  simp only [readRows_eq_ok_iff]
  induction rows with
  | nil => exact iff_of_true ⟨[], rfl⟩ fun _ h => absurd h List.not_mem_nil
  | cons json rows ih =>
    constructor
    · rintro ⟨out, hout⟩ row hrow
      cases out with
      | nil => cases hout
      | cons d out =>
        obtain ⟨hd, hrest⟩ := List.cons.inj hout
        rcases List.mem_cons.mp hrow with he | hrow
        · exact (hother json).mp ⟨d, hd⟩ row he.symm
        · exact ih.mp ⟨out, hrest⟩ row hrow
    · intro h
      obtain ⟨d, hd⟩ := (hother json).mpr fun row he => h row (he ▸ List.mem_cons_self)
      obtain ⟨out, hout⟩ := ih.mpr fun row hrow => h row (List.mem_cons_of_mem json hrow)
      exact ⟨d :: out, by rw [List.map_cons, hd, hout]; rfl⟩

end Marketplace.Enrichment
