import Marketplace.Enrichment.Publish

/-!
# What is published

What the product shows of a contractor is to be read off the staging tables: the summary of the
place that it has by a match that passes the gate, with the reviews of that place, and nothing when
there is no such match (`Marketplace.Enrichment.Product.Agrees`). Publishing gets there, and gets
there again, exactly from the databases of `Marketplace.Enrichment.Publishable`.

A contractor that changes its place keeps the reviews of the former one: what is deleted are the
reviews of contractors without a place, and what arrives is keyed by the review.
-/

namespace Marketplace.Enrichment

/-! ### What ought to be published -/

/-- What is shown of a place. -/
structure GoogleSummary where
  rating : Option ℚ := none
  reviewCount : Option ℤ := none
  placeId : Option Text := none
  placeUrl : Option Text := none

/-- What is shown of the place of a contractor. -/
def ContractorRow.summary (c : ContractorRow) : GoogleSummary :=
  ⟨c.googleRating, c.googleReviewCount, c.googlePlaceId, c.googlePlaceUrl⟩

namespace Staging

variable (s : Staging)

/-- What is to be shown of a place. -/
def summaryOf (p : Place) : GoogleSummary where
  rating := p.overallRating
  reviewCount := some (p.totalReviews.getD (s.reviewsOf p.placeId).length)
  placeId := some p.placeId
  placeUrl := p.placeUrl

/-- The reviews that a contractor with a place is to have. -/
def reviewsFor (c : Uuid) (p : Place) : List ContractorReview :=
  (s.reviewsOf p.placeId).map fun v => reviewOf c v 0

end Staging

/-- The reviews of a contractor. -/
def googleReviews (reviews : List ContractorReview) (c : Uuid) : List ContractorReview :=
  reviews.filter fun r => r.contractorId = c && r.source = .google

/-- **What is published is what is staged**: each contractor has the summary and the reviews of the
place that it has by a match that passes, or none. -/
structure Product.Agrees (gate : Gate) (s : Staging) (product : Product) : Prop where
  published : ∀ c ∈ product.contractors, ∀ p, s.IsPlaceOf gate c.id p → c.summary = s.summaryOf p ∧
    ((googleReviews product.reviews c.id).map ContractorReview.timeless).Perm (s.reviewsFor c.id p)
  unpublished : ∀ c ∈ product.contractors, (∀ p, ¬ s.IsPlaceOf gate c.id p) → c.summary = {} ∧
    googleReviews product.reviews c.id = []

/-- **Publishing commits, and publishes what is staged**; publishing again changes nothing but
timestamps. -/
def Publishes (gate : Gate) (db : Database) : Prop :=
  ∀ now, ∃ db', publish gate now db = some db' ∧ db'.staging = db.staging ∧
    db'.product.Agrees gate db.staging ∧
    ∀ later, ∃ db'', publish gate later db' = some db'' ∧
      db''.product.contractors.map ContractorRow.timeless =
        db'.product.contractors.map ContractorRow.timeless ∧
      db''.product.reviews.map ContractorReview.timeless =
        db'.product.reviews.map ContractorReview.timeless

/-- **What publishing needs.** -/
structure Publishable (gate : Gate) (db : Database) : Prop where
  /-- No contractor has two matches that pass. -/
  single :
    ((db.staging.placeMatches.filter gate.passes).map PlaceMatch.contractorId).Nodup
  /-- The summary of each place can be stored. -/
  place : ∀ c p, db.staging.IsPlaceOf gate c p →
    p.overallRating.all (fun rating => 1 ≤ rating && rating ≤ 5) = true ∧
      p.totalReviews.all (fun count => 0 ≤ count) = true
  /-- The reviews of each place can be stored. -/
  review : ∀ c p, db.staging.IsPlaceOf gate c p → ∀ v ∈ db.staging.reviewsOf p.placeId,
    (reviewOf c v 0).check = true
  /-- A contractor that has a place has no reviews but of that place. -/
  former : ∀ r ∈ db.product.reviews, ∀ p, db.staging.IsPlaceOf gate r.contractorId p →
    ∃ v ∈ db.staging.reviewsOf p.placeId, v.reviewId = r.externalId
  /-- A contractor without a place, and that was not published with one, shows none. -/
  blank : ∀ c ∈ db.product.contractors, (∀ p, ¬ db.staging.IsPlaceOf gate c.id p) →
    c.googlePlaceId = none → c.summary = {}

/-! ### The matches -/

variable {gate : Gate} {now : Instant} {db db' : Database} {s : Staging} {c : Uuid} {p p' : Place}
  {r new : ContractorReview} {reviews : List ContractorReview}

/-- A contractor is published with each match that passes. -/
theorem map_contractorId_publishedMatch :
    (publishedMatch gate s).map PublishedMatch.contractorId =
      (s.placeMatches.filter gate.passes).map PlaceMatch.contractorId := by
  have hall : ∀ l : List PlaceMatch, (∀ m ∈ l, ∃ p, s.placeOf m.placeId = some p) →
      (l.filterMap fun m => (s.placeOf m.placeId).map fun p =>
        ({ contractorId := m.contractorId, placeId := m.placeId, overallRating := p.overallRating
           totalReviews := p.totalReviews, placeUrl := p.placeUrl } : PublishedMatch)).map
        PublishedMatch.contractorId = l.map PlaceMatch.contractorId := by
    intro l hl
    induction l with
    | nil => rfl
    | cons m l ih =>
      obtain ⟨p, hp⟩ := hl m List.mem_cons_self
      rw [List.filterMap_cons_some (by rw [hp]; rfl), List.map_cons, List.map_cons,
        ih fun m hm => hl m (List.mem_cons_of_mem _ hm)]
  exact hall _ fun m hm => Staging.exists_placeOf (List.mem_filter.mp hm).1

theorem isPublished_publishedMatch :
    isPublished (publishedMatch gate s) c = true ↔ ∃ p, s.IsPlaceOf gate c p := by
  rw [isPublished_iff, List.mem_map]
  constructor
  · rintro ⟨pm, hpm, rfl⟩
    obtain ⟨c, p, hp, rfl⟩ := mem_publishedMatch.mp hpm
    exact ⟨p, hp⟩
  · rintro ⟨p, hp⟩
    exact ⟨_, mem_publishedMatch.mpr ⟨c, p, hp, rfl⟩, rfl⟩

section Single

variable (hsingle : ((s.placeMatches.filter gate.passes).map PlaceMatch.contractorId).Nodup)
include hsingle

theorem nodup_publishedMatch :
    ((publishedMatch gate s).map PublishedMatch.contractorId).Nodup := by
  rw [map_contractorId_publishedMatch]
  exact hsingle

/-- The place of a contractor is found. -/
theorem find?_publishedMatch (hp : s.IsPlaceOf gate c p) :
    ((publishedMatch gate s).find? fun pm => pm.contractorId = c) = some (.of c p) :=
  (Sql.find?_key_eq_some (nodup_publishedMatch hsingle)).mpr
    ⟨mem_publishedMatch.mpr ⟨c, p, hp, rfl⟩, rfl⟩

/-- A contractor has one place. -/
theorem placeOf_unique (hp : s.IsPlaceOf gate c p) (hp' : s.IsPlaceOf gate c p') : p = p' := by
  obtain ⟨m, hm, hc, hpasses, hplace⟩ := hp
  obtain ⟨m', hm', hc', hpasses', hplace'⟩ := hp'
  have hmm' : m = m' := List.inj_on_of_nodup_map hsingle (List.mem_filter.mpr ⟨hm, hpasses⟩)
    (List.mem_filter.mpr ⟨hm', hpasses'⟩) (hc.trans hc'.symm)
  subst hmm'
  exact Option.some.inj (hplace.symm.trans hplace')

/-- The reviews that arrive have different keys. -/
theorem nodup_arriving :
    ((arriving (publishedMatch gate s) now s).map ContractorReview.key).Nodup := by
  rw [arriving, List.map_flatMap, List.nodup_flatMap]
  constructor
  · intro pm _
    rw [List.map_map]
    have hkeys := Staging.nodup_reviewsOf (s := s) pm.placeId
    refine List.Nodup.of_map (fun k => k.2.2) ?_
    rw [List.map_map]
    exact hkeys
  · refine ((List.pairwise_map.mp (nodup_publishedMatch hsingle)).imp fun {pm pm'} hne => ?_)
    intro k hk hk'
    simp only [List.map_map, List.mem_map, Function.comp_apply] at hk hk'
    obtain ⟨v, -, rfl⟩ := hk
    obtain ⟨v', -, hkey⟩ := hk'
    exact hne (congrArg Prod.fst hkey).symm

end Single

/-! ### The reviews -/

theorem mem_arriving_publishedMatch : r ∈ arriving (publishedMatch gate s) now s ↔
    ∃ c p, s.IsPlaceOf gate c p ∧ ∃ v ∈ s.reviewsOf p.placeId, r = reviewOf c v now := by
  rw [mem_arriving]
  constructor
  · rintro ⟨pm, hpm, v, hv, rfl⟩
    obtain ⟨c, p, hp, rfl⟩ := mem_publishedMatch.mp hpm
    exact ⟨c, p, hp, v, hv, rfl⟩
  · rintro ⟨c, p, hp, v, hv, rfl⟩
    exact ⟨_, mem_publishedMatch.mpr ⟨c, p, hp, rfl⟩, v, hv, rfl⟩

/-- What is set over a review makes it the one that arrives. -/
theorem timeless_overwrite (old new : ContractorReview) (h : old.key = new.key) :
    (old.overwrite new).timeless = new.timeless := by
  obtain ⟨hc, hsource, hexternal⟩ : old.contractorId = new.contractorId ∧
      old.source = new.source ∧ old.externalId = new.externalId := by
    simpa [ContractorReview.key] using h
  simp [ContractorReview.timeless, ContractorReview.overwrite, hc, hsource, hexternal]

theorem timeless_of_lands
    (h : Sql.Lands ContractorReview.key ContractorReview.overwrite reviews new r) :
    r.timeless = new.timeless := by
  rcases h with ⟨old, -, hkey, rfl⟩ | ⟨-, rfl⟩
  · exact timeless_overwrite old new hkey
  · rfl

theorem check_timeless (r : ContractorReview) : r.timeless.check = r.check := rfl

theorem check_of_timeless (h : r.timeless = new.timeless) : r.check = new.check := by
  rw [← check_timeless, h, check_timeless]

/-- A review that arrives ends up somewhere. -/
theorem exists_lands (reviews : List ContractorReview) (new : ContractorReview) :
    ∃ r, Sql.Lands ContractorReview.key ContractorReview.overwrite reviews new r := by
  by_cases h : new.key ∈ reviews.map ContractorReview.key
  · obtain ⟨old, hold, hkey⟩ := List.mem_map.mp h
    exact ⟨_, Or.inl ⟨old, hold, hkey, rfl⟩⟩
  · exact ⟨new, Or.inr ⟨h, rfl⟩⟩

/-- A review whose key is there after the insert. -/
theorem mem_map_key_publishedReviews {k : Uuid × ReviewSource × Text} :
    k ∈ (publishedReviews (publishedMatch gate s) now s reviews).map ContractorReview.key ↔
      (∃ r ∈ reviews, (∃ p, s.IsPlaceOf gate r.contractorId p) ∧ r.key = k) ∨
        ∃ c p, s.IsPlaceOf gate c p ∧ ∃ v ∈ s.reviewsOf p.placeId, (c, .google, v.reviewId) = k := by
  rw [publishedReviews, Sql.mem_map_key_upsertAll key_overwrite]
  simp only [List.mem_map, mem_remaining, isPublished_publishedMatch, mem_arriving_publishedMatch]
  refine or_congr ⟨?_, ?_⟩ ⟨?_, ?_⟩
  · rintro ⟨r, ⟨hr, hp⟩, hk⟩
    exact ⟨r, hr, hp, hk⟩
  · rintro ⟨r, hr, hp, hk⟩
    exact ⟨r, ⟨hr, hp⟩, hk⟩
  · rintro ⟨r, ⟨c, p, hp, v, hv, rfl⟩, hk⟩
    exact ⟨c, p, hp, v, hv, hk⟩
  · rintro ⟨c, p, hp, v, hv, hk⟩
    exact ⟨_, ⟨c, p, hp, v, hv, rfl⟩, hk⟩

/-- **The reviews afterwards**: those that were there, of a contractor with a place, and that do
not arrive, and those that arrive. -/
theorem mem_publishedReviews
    (hsingle : ((s.placeMatches.filter gate.passes).map PlaceMatch.contractorId).Nodup) :
    r ∈ publishedReviews (publishedMatch gate s) now s reviews ↔
      (r ∈ reviews ∧ (∃ p, s.IsPlaceOf gate r.contractorId p) ∧
        ∀ p, s.IsPlaceOf gate r.contractorId p → ∀ v ∈ s.reviewsOf p.placeId,
          v.reviewId ≠ r.externalId) ∨
      ∃ c p, s.IsPlaceOf gate c p ∧ ∃ v ∈ s.reviewsOf p.placeId,
        Sql.Lands ContractorReview.key ContractorReview.overwrite
          (remaining (publishedMatch gate s) reviews) (reviewOf c v now) r := by
  rw [publishedReviews, Sql.mem_upsertAll key_overwrite (nodup_arriving hsingle), mem_remaining,
    isPublished_publishedMatch, and_assoc]
  refine or_congr (and_congr_right fun _ => and_congr_right fun _ => ?_) ⟨?_, ?_⟩
  · constructor
    · intro h p hp v hv hid
      refine h (List.mem_map.mpr ⟨reviewOf r.contractorId v now,
        mem_arriving_publishedMatch.mpr ⟨_, p, hp, v, hv, rfl⟩, ?_⟩)
      rcases hsource : r.source with _
      simp [ContractorReview.key, reviewOf, hid, hsource]
    · intro h hkey
      obtain ⟨new, hnew, hkey⟩ := List.mem_map.mp hkey
      obtain ⟨c, p, hp, v, hv, rfl⟩ := mem_arriving_publishedMatch.mp hnew
      obtain ⟨rfl, hid⟩ : c = r.contractorId ∧ v.reviewId = r.externalId := by
        simpa [ContractorReview.key, reviewOf] using hkey
      exact h p hp v hv hid
  · rintro ⟨new, hnew, hlands⟩
    obtain ⟨c, p, hp, v, hv, rfl⟩ := mem_arriving_publishedMatch.mp hnew
    exact ⟨c, p, hp, v, hv, hlands⟩
  · rintro ⟨c, p, hp, v, hv, hlands⟩
    exact ⟨_, mem_arriving_publishedMatch.mpr ⟨c, p, hp, v, hv, rfl⟩, hlands⟩

/-! ### The contractors -/

section Contractors

variable {row : ContractorRow} {contractors : List ContractorRow}

/-- What an update makes of a contractor with a place. -/
theorem filled_of_place
    (hsingle : ((s.placeMatches.filter gate.passes).map PlaceMatch.contractorId).Nodup)
    (hp : s.IsPlaceOf gate row.id p) :
    filled (publishedMatch gate s) now reviews (cleared (publishedMatch gate s) now row) =
      { row with
        googleRating := p.overallRating
        googleReviewCount := some (p.totalReviews.getD (googleReviews reviews row.id).length)
        googlePlaceId := some p.placeId
        googlePlaceUrl := p.placeUrl
        googleReviewsSyncedAt := some now
        dataSource := .google
        updatedAt := now } := by
  have hcleared : cleared (publishedMatch gate s) now row = row := by
    have hpublished : isPublished (publishedMatch gate s) row.id = true :=
      isPublished_publishedMatch.mpr ⟨p, hp⟩
    simp [cleared, hpublished]
  rw [hcleared, filled, find?_publishedMatch hsingle hp, googleReviews, List.countP_eq_length_filter]
  rfl

/-- What an update makes of a contractor without one. -/
theorem filled_of_noPlace (hp : ∀ p, ¬ s.IsPlaceOf gate row.id p) :
    filled (publishedMatch gate s) now reviews (cleared (publishedMatch gate s) now row) =
      if row.googlePlaceId.isSome then
        { row with
          googleRating := none
          googleReviewCount := none
          googlePlaceId := none
          googlePlaceUrl := none
          googleReviewsSyncedAt := none
          dataSource := .cslb
          updatedAt := now }
      else row := by
  have hpublished : isPublished (publishedMatch gate s) row.id = false := by
    rw [← Bool.not_eq_true, isPublished_publishedMatch]
    exact fun ⟨p, h⟩ => hp p h
  have hfind : ((publishedMatch gate s).find? fun pm => pm.contractorId = row.id) = none := by
    rw [List.find?_eq_none]
    intro pm hpm hid
    obtain ⟨c, p, h, rfl⟩ := mem_publishedMatch.mp hpm
    exact hp p (of_decide_eq_true hid ▸ h)
  rw [filled, cleared_id, hfind, cleared, hpublished, Bool.not_false, Bool.and_true]

theorem mem_publishedContractors {row' : ContractorRow} {published : List PublishedMatch} :
    row' ∈ publishedContractors published now reviews contractors ↔
      ∃ row ∈ contractors, row' = filled published now reviews (cleared published now row) := by
  simp [publishedContractors, eq_comm]

end Contractors

/-! ### The transaction -/

/-- What a transaction that commits leaves. -/
structure Published (gate : Gate) (now : Instant) (db db' : Database) : Prop where
  single : ((db.staging.placeMatches.filter gate.passes).map PlaceMatch.contractorId).Nodup
  staging : db'.staging = db.staging
  reviews : db'.product.reviews =
    publishedReviews (publishedMatch gate db.staging) now db.staging db.product.reviews
  contractors : db'.product.contractors =
    publishedContractors (publishedMatch gate db.staging) now db'.product.reviews
      db.product.contractors

theorem published_of_publish (h : publish gate now db = some db') : Published gate now db db' := by
  rw [publish] at h
  split at h
  next hsingle =>
    rw [map_contractorId_publishedMatch] at hsingle
    split at h
    next hcheck =>
      cases h
      exact ⟨hsingle, rfl, rfl, rfl⟩
    next => cases h
  next => cases h

/-- **The transaction commits** when no contractor has two matches that pass, and what it writes
passes the checks. -/
theorem exists_publish
    (hsingle : ((db.staging.placeMatches.filter gate.passes).map PlaceMatch.contractorId).Nodup)
    (hreviews : (publishedReviews (publishedMatch gate db.staging) now db.staging
      db.product.reviews).all ContractorReview.check = true)
    (hcontractors : (publishedContractors (publishedMatch gate db.staging) now
      (publishedReviews (publishedMatch gate db.staging) now db.staging db.product.reviews)
      db.product.contractors).all ContractorRow.check = true) :
    ∃ db', publish gate now db = some db' ∧ Published gate now db db' := by
  have hsome : (publish gate now db).isSome = true := by
    rw [publish, if_pos (nodup_publishedMatch hsingle), dif_pos ⟨hcontractors, hreviews⟩]
    rfl
  obtain ⟨db', hdb'⟩ := Option.isSome_iff_exists.mp hsome
  exact ⟨db', hdb', published_of_publish hdb'⟩

/-! ### What a commit publishes -/

theorem mem_googleReviews : r ∈ googleReviews reviews c ↔ r ∈ reviews ∧ r.contractorId = c := by
  rw [googleReviews, List.mem_filter]
  rcases r.source with _
  simp

/-- Reviews with different keys are different. -/
theorem nodup_timeless_googleReviews (h : (reviews.map ContractorReview.key).Nodup) :
    ((googleReviews reviews c).map ContractorReview.timeless).Nodup := by
  refine List.Nodup.of_map ContractorReview.key ?_
  rw [List.map_map]
  exact h.sublist (List.filter_sublist.map _)

theorem nodup_reviewsFor : (s.reviewsFor c p).Nodup := by
  refine List.Nodup.of_map ContractorReview.externalId ?_
  rw [Staging.reviewsFor, List.map_map]
  exact s.nodup_reviewsOf p.placeId

theorem mem_reviewsFor : r ∈ s.reviewsFor c p ↔ ∃ v ∈ s.reviewsOf p.placeId, r = reviewOf c v 0 := by
  simp [Staging.reviewsFor, eq_comm]

namespace Published

variable (h : Published gate now db db')
include h

theorem mem_reviews : r ∈ db'.product.reviews ↔
    (r ∈ db.product.reviews ∧ (∃ p, db.staging.IsPlaceOf gate r.contractorId p) ∧
      ∀ p, db.staging.IsPlaceOf gate r.contractorId p → ∀ v ∈ db.staging.reviewsOf p.placeId,
        v.reviewId ≠ r.externalId) ∨
    ∃ c p, db.staging.IsPlaceOf gate c p ∧ ∃ v ∈ db.staging.reviewsOf p.placeId,
      Sql.Lands ContractorReview.key ContractorReview.overwrite
        (remaining (publishedMatch gate db.staging) db.product.reviews) (reviewOf c v now) r := by
  rw [h.reviews]
  exact mem_publishedReviews h.single

/-- The contractors stay who they are. -/
theorem map_id_contractors :
    db'.product.contractors.map ContractorRow.id = db.product.contractors.map ContractorRow.id := by
  rw [h.contractors]
  exact map_id_publishedContractors

/-- A contractor with a place is there. -/
theorem exists_contractor (hp : db.staging.IsPlaceOf gate c p) :
    ∃ row ∈ db'.product.contractors, row.id = c := by
  obtain ⟨m, hm, rfl, -⟩ := hp
  have hid := db.placeMatches_contractor m hm
  rw [← h.map_id_contractors] at hid
  exact List.mem_map.mp hid

/-- A review that is there is of a contractor with a place. -/
theorem exists_place (hr : r ∈ db'.product.reviews) :
    ∃ p, db.staging.IsPlaceOf gate r.contractorId p := by
  rcases h.mem_reviews.mp hr with ⟨-, hp, -⟩ | ⟨c, p, hp, v, -, hlands⟩
  · exact hp
  · have hid : r.contractorId = c := congrArg Prod.fst (Sql.key_of_lands key_overwrite hlands)
    exact ⟨p, hid ▸ hp⟩

/-- **A contractor with a place has the reviews of that place**, unless it has those of a former
one. -/
theorem googleReviews_perm (hp : db.staging.IsPlaceOf gate c p)
    (hformer : ∀ r ∈ db.product.reviews, r.contractorId = c →
      ∃ v ∈ db.staging.reviewsOf p.placeId, v.reviewId = r.externalId) :
    ((googleReviews db'.product.reviews c).map ContractorReview.timeless).Perm
      (db.staging.reviewsFor c p) := by
  refine (List.perm_ext_iff_of_nodup (nodup_timeless_googleReviews db'.product.reviews_key)
    nodup_reviewsFor).mpr fun x => ?_
  rw [List.mem_map, mem_reviewsFor]
  constructor
  · rintro ⟨r, hmem, rfl⟩
    obtain ⟨hr, rfl⟩ := mem_googleReviews.mp hmem
    rcases h.mem_reviews.mp hr with ⟨hold, -, hgone⟩ | ⟨c, p', hp', v, hv, hlands⟩
    · obtain ⟨v, hv, hid⟩ := hformer r hold rfl
      exact absurd hid (hgone p hp v hv)
    · have hid : r.contractorId = c := congrArg Prod.fst (Sql.key_of_lands key_overwrite hlands)
      subst hid
      obtain rfl := placeOf_unique h.single hp hp'
      exact ⟨v, hv, timeless_of_lands hlands⟩
  · rintro ⟨v, hv, rfl⟩
    obtain ⟨r, hlands⟩ := exists_lands
      (remaining (publishedMatch gate db.staging) db.product.reviews) (reviewOf c v now)
    exact ⟨r, mem_googleReviews.mpr ⟨h.mem_reviews.mpr (Or.inr ⟨c, p, hp, v, hv, hlands⟩),
      congrArg Prod.fst (Sql.key_of_lands key_overwrite hlands)⟩, timeless_of_lands hlands⟩

/-- **A commit publishes what is staged**, when no contractor has reviews of a former place, and
those that were never published show nothing. -/
theorem agrees
    (hformer : ∀ r ∈ db.product.reviews, ∀ p, db.staging.IsPlaceOf gate r.contractorId p →
      ∃ v ∈ db.staging.reviewsOf p.placeId, v.reviewId = r.externalId)
    (hblank : ∀ row ∈ db.product.contractors, (∀ p, ¬ db.staging.IsPlaceOf gate row.id p) →
      row.googlePlaceId = none → row.summary = {}) :
    db'.product.Agrees gate db.staging := by
  constructor
  · intro row' hrow' p hp
    have hperm : ((googleReviews db'.product.reviews row'.id).map ContractorReview.timeless).Perm
        (db.staging.reviewsFor row'.id p) := by
      refine h.googleReviews_perm hp fun r hr hid => hformer r hr p ?_
      rw [hid]
      exact hp
    refine ⟨?_, hperm⟩
    have hlength := hperm.length_eq
    rw [List.length_map, Staging.reviewsFor, List.length_map] at hlength
    rw [h.contractors] at hrow'
    obtain ⟨row, -, rfl⟩ := mem_publishedContractors.mp hrow'
    rw [filled_id, cleared_id] at hp hlength
    rw [filled_of_place h.single hp, hlength]
    rfl
  · intro row' hrow' hno
    constructor
    · rw [h.contractors] at hrow'
      obtain ⟨row, hrow, rfl⟩ := mem_publishedContractors.mp hrow'
      rw [filled_id, cleared_id] at hno
      rw [filled_of_noPlace hno]
      split
      next => rfl
      next hnone => exact hblank row hrow hno (Option.not_isSome_iff_eq_none.mp hnone)
    · rw [List.eq_nil_iff_forall_not_mem]
      intro r hr
      obtain ⟨hr, hid⟩ := mem_googleReviews.mp hr
      obtain ⟨p, hp⟩ := h.exists_place hr
      exact hno p (hid ▸ hp)

/-- What a commit publishes was staged so that it can be stored. -/
theorem place (hagrees : db'.product.Agrees gate db.staging) (hp : db.staging.IsPlaceOf gate c p) :
    p.overallRating.all (fun rating => 1 ≤ rating && rating ≤ 5) = true ∧
      p.totalReviews.all (fun count => 0 ≤ count) = true := by
  obtain ⟨row, hrow, rfl⟩ := h.exists_contractor hp
  obtain ⟨hsummary, -⟩ := hagrees.published row hrow p hp
  have hcheck := List.all_eq_true.mp db'.product.contractors_check row hrow
  rw [ContractorRow.check, Bool.and_eq_true] at hcheck
  have hrating : row.googleRating = p.overallRating := congrArg GoogleSummary.rating hsummary
  have hcount : row.googleReviewCount =
      some (p.totalReviews.getD (db.staging.reviewsOf p.placeId).length) :=
    congrArg GoogleSummary.reviewCount hsummary
  rw [hrating, hcount] at hcheck
  refine ⟨hcheck.1, ?_⟩
  rcases htotal : p.totalReviews with _ | count
  · rfl
  · rw [htotal] at hcheck
    exact hcheck.2

theorem review (hagrees : db'.product.Agrees gate db.staging) (hp : db.staging.IsPlaceOf gate c p)
    {v : GmapsReview} (hv : v ∈ db.staging.reviewsOf p.placeId) : (reviewOf c v 0).check = true := by
  obtain ⟨row, hrow, rfl⟩ := h.exists_contractor hp
  obtain ⟨-, hperm⟩ := hagrees.published row hrow p hp
  obtain ⟨r, hr, hsame⟩ := List.mem_map.mp (hperm.mem_iff.mpr (mem_reviewsFor.mpr ⟨v, hv, rfl⟩))
  rw [← hsame, check_timeless]
  exact List.all_eq_true.mp db'.product.reviews_check r (mem_googleReviews.mp hr).1

/-- **A contractor that had a review of a former place has it still**, so that there is none when
what is published is what is staged. -/
theorem former (hagrees : db'.product.Agrees gate db.staging) (hr : r ∈ db.product.reviews)
    (hp : db.staging.IsPlaceOf gate r.contractorId p) :
    ∃ v ∈ db.staging.reviewsOf p.placeId, v.reviewId = r.externalId := by
  obtain ⟨row, hrow, hid⟩ := h.exists_contractor hp
  have hkey : r.key ∈ db'.product.reviews.map ContractorReview.key := by
    rw [h.reviews, mem_map_key_publishedReviews]
    exact Or.inl ⟨r, hr, ⟨p, hp⟩, rfl⟩
  obtain ⟨r', hr', hkey⟩ := List.mem_map.mp hkey
  have hid' : r'.contractorId = row.id := (congrArg Prod.fst hkey).trans hid.symm
  obtain ⟨-, hperm⟩ := hagrees.published row hrow p (hid ▸ hp)
  obtain ⟨v, hv, hsame⟩ := mem_reviewsFor.mp (hperm.mem_iff.mp
    (List.mem_map_of_mem (mem_googleReviews.mpr ⟨hr', hid'⟩)))
  have hexternal : r'.externalId = v.reviewId := congrArg ContractorReview.externalId hsame
  exact ⟨v, hv, hexternal.symm.trans (congrArg (fun k => k.2.2) hkey)⟩

theorem blank (hagrees : db'.product.Agrees gate db.staging) {row : ContractorRow}
    (hrow : row ∈ db.product.contractors) (hno : ∀ p, ¬ db.staging.IsPlaceOf gate row.id p)
    (hnone : row.googlePlaceId = none) : row.summary = {} := by
  have hsame : filled (publishedMatch gate db.staging) now db'.product.reviews
      (cleared (publishedMatch gate db.staging) now row) = _ := filled_of_noPlace hno
  rw [hnone, Option.isSome_none, if_neg Bool.false_ne_true] at hsame
  have hrow' : row ∈ db'.product.contractors := by
    rw [h.contractors]
    exact mem_publishedContractors.mpr ⟨row, hrow, hsame.symm⟩
  exact (hagrees.unpublished row hrow' hno).1

end Published

/-! ### The checks -/

/-- The reviews that are published can be stored. -/
theorem all_check_publishedReviews (h : Publishable gate db) :
    (publishedReviews (publishedMatch gate db.staging) now db.staging db.product.reviews).all
      ContractorReview.check = true := by
  rw [List.all_eq_true]
  intro r hr
  rcases (mem_publishedReviews h.single).mp hr with ⟨hold, -⟩ | ⟨c, p, hp, v, hv, hlands⟩
  · exact List.all_eq_true.mp db.product.reviews_check r hold
  · rw [check_of_timeless (timeless_of_lands hlands)]
    exact h.review c p hp v hv

/-- The summaries that are published can be stored. -/
theorem all_check_publishedContractors (h : Publishable gate db) :
    (publishedContractors (publishedMatch gate db.staging) now reviews db.product.contractors).all
      ContractorRow.check = true := by
  rw [List.all_eq_true]
  intro row' hrow'
  obtain ⟨row, hrow, rfl⟩ := mem_publishedContractors.mp hrow'
  by_cases hp : ∃ p, db.staging.IsPlaceOf gate row.id p
  · obtain ⟨p, hp⟩ := hp
    obtain ⟨hrating, htotal⟩ := h.place row.id p hp
    rw [filled_of_place h.single hp, ContractorRow.check, hrating, Bool.true_and]
    rcases htotal' : p.totalReviews with _ | count
    · simp
    · rw [htotal'] at htotal
      exact htotal
  · rw [filled_of_noPlace fun p hp' => hp ⟨p, hp'⟩]
    split
    next => rfl
    next => exact List.all_eq_true.mp db.product.contractors_check row hrow

/-! ### Publishing again -/

/-- Rows that are the same but for what a check does not read pass it alike. -/
theorem all_of_map_eq {α β : Type} {f : α → β} {check : α → Bool} {check' : β → Bool}
    (hcheck : ∀ x, check' (f x) = check x) {l l' : List α} (h : l.map f = l'.map f) :
    l.all check = l'.all check := by
  have hall : ∀ l : List α, l.all check = (l.map f).all check' := by
    intro l
    rw [List.all_map]
    exact congrArg l.all (funext fun x => (hcheck x).symm)
  rw [hall l, hall l', h]

theorem ContractorRow.check_timeless (row : ContractorRow) : row.timeless.check = row.check := rfl

theorem length_googleReviews_of_timeless {l l' : List ContractorReview}
    (h : l.map ContractorReview.timeless = l'.map ContractorReview.timeless) :
    (googleReviews l c).length = (googleReviews l' c).length := by
  have hlength : ∀ l : List ContractorReview, (googleReviews l c).length =
      (googleReviews (l.map ContractorReview.timeless) c).length := by
    intro l
    rw [googleReviews, googleReviews, List.filter_map, List.length_map]
    rfl
  rw [hlength l, hlength l', h]

namespace Published

variable (h : Published gate now db db') {later : Instant}
include h

/-- **Reviews that are published again are the same.** -/
theorem map_timeless_reviews (hagrees : db'.product.Agrees gate db.staging) :
    (publishedReviews (publishedMatch gate db.staging) later db.staging db'.product.reviews).map
        ContractorReview.timeless = db'.product.reviews.map ContractorReview.timeless := by
  have hremaining : remaining (publishedMatch gate db.staging) db'.product.reviews =
      db'.product.reviews := by
    refine List.filter_eq_self.mpr fun r hr => ?_
    have hpublished : isPublished (publishedMatch gate db.staging) r.contractorId = true :=
      isPublished_publishedMatch.mpr (h.exists_place hr)
    simp [hpublished]
  rw [publishedReviews, hremaining]
  refine Sql.map_upsertAll (q := ContractorReview.timeless) key_overwrite (fun r hr => ?_)
    timeless_overwrite fun old hold r hr hkey => ?_
  · obtain ⟨c, p, hp, v, hv, rfl⟩ := mem_arriving_publishedMatch.mp hr
    rw [h.reviews, mem_map_key_publishedReviews]
    exact Or.inr ⟨c, p, hp, v, hv, rfl⟩
  · -- what is there is of the place of its contractor, and known by its key
    obtain ⟨c, p, hp, v, hv, rfl⟩ := mem_arriving_publishedMatch.mp hr
    obtain ⟨row, hrow, rfl⟩ := h.exists_contractor hp
    obtain ⟨-, hperm⟩ := hagrees.published row hrow p hp
    have hid : old.contractorId = row.id := congrArg Prod.fst hkey
    obtain ⟨v', hv', hsame⟩ := mem_reviewsFor.mp (hperm.mem_iff.mp
      (List.mem_map_of_mem (mem_googleReviews.mpr ⟨hold, hid⟩)))
    have hexternal : v'.reviewId = v.reviewId :=
      (congrArg ContractorReview.externalId hsame).symm.trans (congrArg (fun k => k.2.2) hkey)
    rw [hsame, List.inj_on_of_nodup_map (db.staging.nodup_reviewsOf p.placeId) hv' hv hexternal]
    rfl

/-- **Contractors that are published again are the same.** -/
theorem map_timeless_contractors (hagrees : db'.product.Agrees gate db.staging)
    (hreviews : reviews.map ContractorReview.timeless =
      db'.product.reviews.map ContractorReview.timeless) :
    (publishedContractors (publishedMatch gate db.staging) later reviews
        db'.product.contractors).map ContractorRow.timeless =
      db'.product.contractors.map ContractorRow.timeless := by
  rw [publishedContractors, List.map_map, List.map_map]
  refine List.map_congr_left fun row' hrow' => ?_
  show (filled (publishedMatch gate db.staging) later reviews
    (cleared (publishedMatch gate db.staging) later row')).timeless = row'.timeless
  by_cases hp : ∃ p, db.staging.IsPlaceOf gate row'.id p
  · obtain ⟨p, hp⟩ := hp
    rw [filled_of_place h.single hp, length_googleReviews_of_timeless hreviews]
    rw [h.contractors] at hrow'
    obtain ⟨row, -, rfl⟩ := mem_publishedContractors.mp hrow'
    rw [filled_id, cleared_id] at hp ⊢
    rw [filled_of_place h.single hp]
    rfl
  · have hno : ∀ p, ¬ db.staging.IsPlaceOf gate row'.id p := fun p hp' => hp ⟨p, hp'⟩
    have hnone : row'.googlePlaceId = none :=
      congrArg GoogleSummary.placeId (hagrees.unpublished row' hrow' hno).1
    rw [filled_of_noPlace hno, hnone]
    rfl

/-- **Publishing again commits**, and changes nothing but timestamps. -/
theorem again (hagrees : db'.product.Agrees gate db.staging) :
    ∃ db'', publish gate later db' = some db'' ∧
      db''.product.contractors.map ContractorRow.timeless =
        db'.product.contractors.map ContractorRow.timeless ∧
      db''.product.reviews.map ContractorReview.timeless =
        db'.product.reviews.map ContractorReview.timeless := by
  have hreviews : (publishedReviews (publishedMatch gate db.staging) later db.staging
      db'.product.reviews).map ContractorReview.timeless = _ := h.map_timeless_reviews hagrees
  have hcontractors : (publishedContractors (publishedMatch gate db.staging) later _
      db'.product.contractors).map ContractorRow.timeless = _ :=
    h.map_timeless_contractors hagrees hreviews
  have hsingle := h.single
  rw [← h.staging] at hreviews hcontractors hsingle
  obtain ⟨db'', hpublish, h'⟩ := exists_publish hsingle
    ((all_of_map_eq check_timeless hreviews).trans db'.product.reviews_check)
    ((all_of_map_eq ContractorRow.check_timeless hcontractors).trans db'.product.contractors_check)
  refine ⟨db'', hpublish, ?_, ?_⟩
  · rw [h'.contractors, h'.reviews]
    exact hcontractors
  · rw [h'.reviews]
    exact hreviews

end Published

/-! ### Exactly when -/

/-- **What is published is what is staged**, and publishing it again changes nothing but timestamps,
exactly when no contractor has two matches that pass the gate, what the places have can be stored,
no contractor with a place has reviews that are not of that place, and no contractor without one
shows a summary that was not published. -/
theorem publishes_iff (gate : Gate) (db : Database) : Publishes gate db ↔ Publishable gate db := by
  constructor
  · intro hpublishes
    obtain ⟨db', hpublish, -, hagrees, -⟩ := hpublishes 0
    have h := published_of_publish hpublish
    exact ⟨h.single, fun c p hp => h.place hagrees hp, fun c p hp v hv => h.review hagrees hp hv,
      fun r hr p hp => h.former hagrees hr hp, fun row hrow hno hnone => h.blank hagrees hrow hno hnone⟩
  · intro h now
    have hcommits : ∃ db', publish gate now db = some db' ∧ Published gate now db db' :=
      exists_publish h.single (all_check_publishedReviews h) (all_check_publishedContractors h)
    obtain ⟨db', hpublish, hpublished⟩ := hcommits
    have hagrees := hpublished.agrees h.former h.blank
    exact ⟨db', hpublish, hpublished.staging, hagrees, fun later => hpublished.again hagrees⟩

/-- Two places of one name, with a review each, the second of which is the contractor's by now; the
first one may be its place as well. -/
def renamed (former : MatchStatus) : Staging where
  places := [{ placeId := "a".toList, placeName := "abc plumbing".toList },
    { placeId := "b".toList, placeName := "abc plumbing".toList }]
  reviews := [{ reviewId := "r".toList, placeId := "a".toList, rating := 5 },
    { reviewId := "s".toList, placeId := "b".toList, rating := 4 }]
  placeMatches := [
    { contractorId := 7, placeId := "a".toList, matchStatus := former, matchScore := 1
      scoreComponents := ⟨some 1, some "abc plumbing".toList⟩ },
    { contractorId := 7, placeId := "b".toList, matchStatus := .confirmed, matchScore := 1
      scoreComponents := ⟨some 1, some "abc plumbing".toList⟩ }]
  places_key := by decide
  reviews_key := by decide
  placeMatches_key := by cases former <;> decide
  reviews_place := by decide
  placeMatches_place := by cases former <;> decide

/-- A contractor that is published with the first place. -/
def formerly : Product where
  contractors := [{ id := 7, googleReviewCount := some 1, googlePlaceId := some "a".toList }]
  reviews := [{ reviewOf 7 { reviewId := "r".toList, placeId := "a".toList, rating := 5 } 0 with
    updatedAt := 1 }]
  contractors_key := by decide
  reviews_key := by decide
  reviews_contractor := by decide
  contractors_check := by decide
  reviews_check := by decide

/-- The database with both. -/
def movedTo (former : MatchStatus) : Database where
  staging := renamed former
  product := formerly
  placeMatches_contractor := by cases former <;> decide

/-- **Reviews of a former place stay**: the match of a contractor has moved to another place, and
the review of the first one is published still. With both matches, nothing is published at all. -/
theorem moved_stays : ¬ Publishes publishGate (movedTo .rejected) ∧
    ¬ Publishes publishGate (movedTo .needsReview) := by
  constructor
  · intro h
    obtain ⟨db', hpublish, -, hagrees, -⟩ := h 0
    have hboth : (publish publishGate 0 (movedTo .rejected)).any (fun db =>
        decide ((googleReviews db.product.reviews 7).length = 2) &&
          db.product.contractors.any fun row => decide (row.id = 7)) = true := by decide +kernel
    rw [hpublish, Option.any_some, Bool.and_eq_true] at hboth
    obtain ⟨hlength, hrow⟩ := hboth
    obtain ⟨row, hrow, hid⟩ := List.any_eq_true.mp hrow
    have hplace : (renamed .rejected).IsPlaceOf publishGate 7
        { placeId := "b".toList, placeName := "abc plumbing".toList } :=
      ⟨_, List.mem_cons_of_mem _ List.mem_cons_self, rfl, by decide +kernel, rfl⟩
    rw [← of_decide_eq_true hid] at hplace hlength
    obtain ⟨-, hperm⟩ := hagrees.published row hrow _ hplace
    have hone := hperm.length_eq
    rw [List.length_map, of_decide_eq_true hlength] at hone
    cases hone
  · intro h
    obtain ⟨db', hpublish, -⟩ := h 0
    have hnone : publish publishGate 0 (movedTo .needsReview) = none := by decide +kernel
    cases hnone.symm.trans hpublish

end Marketplace.Enrichment
