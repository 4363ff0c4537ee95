import Marketplace.Registry.Licenses

/-!
# Listings

A listing is our record of a business: what an import writes of it, what its owner writes, where
it appears, and its badge. Who owns it, and what an owner may write, no import touches; that is a
fact about the updates there are (`Marketplace.Registry.Change`).

Its trades and the regions it serves are rows of their own, without any content, so that all there
is to say of one is whether it is there (`Marketplace.Registry.MemberStatement`).

A listing keeps two histories that no statement reads: the points that a geocoder gave for it,
and the day its badge was last computed.
-/

namespace Marketplace.Registry

open ReadCommitted
open Search (Point)
open Directory (PublicPointSource Region)

/-! ### What a listing is made of -/

/-- Whether a listing publishes its address. -/
inductive AddressVisibility
  /-- `protected`: it does not. -/
  | protect
  /-- `public`: it does. -/
  | publish
  deriving DecidableEq

/-- `AddressVisibility::parse`. -/
def AddressVisibility.parse (value : Text) : Option AddressVisibility :=
  if value = "protected".toList then some .protect
  else if value = "public".toList then some .publish
  else none

/-- The address that an owner gave, all four parts of it. -/
structure OwnerAddress where
  line1 : Text
  city : Text
  state : Text
  postalCode : Text
  deriving DecidableEq

/-- **What is published of a place**: a point with its source, or neither. -/
@[ext]
structure Publication where
  publicPoint : Option Point
  publicPointSource : PublicPointSource
  /-- `contractors_public_point_is_complete`. -/
  public_point_is_complete : publicPoint = none ↔ publicPointSource = .none

namespace Publication

instance : DecidableEq Publication := fun _ _ => decidable_of_iff _ Publication.ext_iff.symm

/-- The exact point. -/
def exact (p : Point) : Publication := ⟨some p, .exact, iff_of_false nofun nofun⟩

/-- The centroid of a region. -/
def zipCentroid (region : Region) : Publication :=
  ⟨some region.centroid, .zipCentroid, iff_of_false nofun nofun⟩

/-- Without a point there is no source. -/
theorem absent_complete : (none : Option Point) = none ↔ PublicPointSource.none = .none :=
  iff_of_true rfl rfl

/-- No point. -/
def absent : Publication := ⟨none, .none, absent_complete⟩

@[simp] theorem exact_source {p : Point} : (exact p).publicPointSource = .exact := rfl

@[simp] theorem exact_point {p : Point} : (exact p).publicPoint = some p := rfl

@[simp] theorem zipCentroid_source {region : Region} :
    (zipCentroid region).publicPointSource = .zipCentroid := rfl

@[simp] theorem zipCentroid_point {region : Region} :
    (zipCentroid region).publicPoint = some region.centroid := rfl

@[simp] theorem absent_source : absent.publicPointSource = .none := rfl

@[simp] theorem absent_point : absent.publicPoint = none := rfl

end Publication

/-- A profile photo, by the key of its object. -/
structure ProfilePhoto where
  storageKey : Uuid × Uuid
  width : ℕ
  height : ℕ
  deriving DecidableEq

/-- **A row of `contractors`.** -/
structure Contractor extends Publication where
  licenseRecordId : Option Uuid
  displayName : Text
  slug : Text
  claimedByUserId : Option Uuid := none
  claimedAt : Option Instant := none
  acceptsDm : Bool := false
  bio : Option Text := none
  websiteUrl : Option Text := none
  publicPhone : Option Text := none
  googleReviewUrl : Option Text := none
  yelpUrl : Option Text := none
  photo : Option ProfilePhoto := none
  serviceRadiusM : ℕ := Directory.defaultServiceRadiusM
  addressVisibility : AddressVisibility
  /-- The geocoded address. -/
  precisePoint : Option Point
  /-- The ZIP code on the licence. -/
  postalCode : Option Text
  regionId : Option Uuid
  ownerAddress : Option OwnerAddress
  verified : Bool
  verifiedAt : Option Instant
  verificationReason : Option Text
  /-- `contractors_claim_is_complete`. -/
  claim_is_complete : claimedByUserId = none ↔ claimedAt = none
  /-- `contractors_verified_is_dated`. -/
  verified_is_dated : verified = true → verifiedAt ≠ none
  /-- The points that a geocoder gave, the last one last. -/
  located : List Point
  /-- The day that the badge was last computed for. -/
  checkedOn : Option ℕ
  deriving DecidableEq

namespace Contractor

/-- Somebody has claimed the listing. -/
def isClaimed (c : Contractor) : Bool := c.claimedByUserId.isSome

/-- The ZIP code that a listing shows, and is filtered by:
`COALESCE(owner_address_postal_code, postal_code)`. -/
def shownPostalCode (c : Contractor) : Option Text :=
  (c.ownerAddress.map OwnerAddress.postalCode) <|> c.postalCode

end Contractor

/-! ### What is written -/

/-- What a field-level edit is asking for. -/
inductive Edit (α : Type)
  | unchanged
  | set (value : α)
  | cleared
  deriving DecidableEq

namespace Edit

variable {α : Type}

/-- The value of a field once it has been edited. -/
def apply : Edit α → Option α → Option α
  | .unchanged, old => old
  | .set value, _ => some value
  | .cleared, _ => none

/-- The value that is given, if one is. -/
def value : Edit α → Option α
  | .set value => some value
  | _ => none

end Edit

/-- **What an owner may edit**: `none` is a field that is not mentioned. -/
structure ProfileUpdate where
  bio : Option Text := none
  websiteUrl : Option Text := none
  publicPhone : Option Text := none
  acceptsDm : Option Bool := none
  addressVisibility : Option AddressVisibility := none
  ownerAddress : Edit OwnerAddress := .unchanged
  googleReviewUrl : Edit Text := .unchanged
  yelpUrl : Edit Text := .unchanged
  deriving DecidableEq

/-- What the importer knows about a contractor. -/
structure SourceFacts where
  licenseRecordId : Uuid
  displayName : Text
  slug : Text
  postalCode : Option Text
  regionId : Option Uuid
  deriving DecidableEq

/-- The condition on a display name. -/
def isDisplayName (name : Text) : Bool :=
  isStorable name && !isBlank name && decide (name.length ≤ 200)

/-- `slug ~ '^[a-z0-9]+(-[a-z0-9]+)*$'`. -/
def isSlug (slug : Text) : Bool :=
  (slug.splitOn '-').all fun part =>
    !part.isEmpty && part.all fun c => c.isLower || c.isDigit

namespace SourceFacts

/-- The row that an import inserts. -/
def row (facts : SourceFacts) : Contractor where
  toPublication := .absent
  licenseRecordId := some facts.licenseRecordId
  displayName := facts.displayName
  slug := facts.slug
  addressVisibility := .publish
  precisePoint := none
  postalCode := facts.postalCode
  regionId := facts.regionId
  ownerAddress := none
  verified := false
  verifiedAt := none
  verificationReason := none
  claim_is_complete := iff_of_true rfl rfl
  verified_is_dated := nofun
  located := []
  checkedOn := none

/-- The conditions on the columns of `contractors` that an import writes. -/
def checks (facts : SourceFacts) : Bool :=
  isDisplayName facts.displayName && isSlug facts.slug && isWithin 10 facts.postalCode

/-- A listing of the same licence, or with the same slug. -/
def clashes (facts : SourceFacts) (c : Contractor) : Bool :=
  c.licenseRecordId = some facts.licenseRecordId || c.slug = facts.slug

end SourceFacts

/-- What the badge currently rests on. -/
structure Outcome where
  verified : Bool
  reason : Text
  deriving DecidableEq

/-- **What an `UPDATE` of a listing writes.** -/
inductive Change
  /-- `upsert_from_license`, of a listing that is not claimed. -/
  | displayName (name : Text)
  /-- `upsert_from_license`, of a ZIP code that moved. -/
  | postalCode (postalCode : Option Text) (regionId : Option Uuid)
  /-- `set_precise_point`. -/
  | precisePoint (p : Point)
  /-- `set_location`. -/
  | location (precise : Option Point) (published : Publication)
  /-- `update_profile`. -/
  | profile (update : ProfileUpdate)
  /-- `set_photo` and `clear_photo`. -/
  | photo (photo : Option ProfilePhoto)
  /-- `service_areas::replace`. -/
  | serviceRadius (radiusM : ℕ)
  /-- `set_verification`, of an outcome that was computed for a day. -/
  | verification (outcome : Outcome) (now : Instant) (day : ℕ)
  deriving DecidableEq

namespace Change

/-- The row once it has been written. -/
def apply : Change → Contractor → Contractor
  | .displayName name, c => { c with displayName := name }
  | .postalCode code region, c => { c with postalCode := code, regionId := region }
  | .precisePoint p, c => { c with precisePoint := some p, located := c.located ++ [p] }
  | .location precise published, c => { c with toPublication := published, precisePoint := precise }
  | .profile update, c =>
    { c with
      bio := update.bio <|> c.bio
      websiteUrl := update.websiteUrl <|> c.websiteUrl
      publicPhone := update.publicPhone <|> c.publicPhone
      acceptsDm := update.acceptsDm.getD c.acceptsDm
      addressVisibility := update.addressVisibility.getD c.addressVisibility
      ownerAddress := update.ownerAddress.apply c.ownerAddress
      googleReviewUrl := update.googleReviewUrl.apply c.googleReviewUrl
      yelpUrl := update.yelpUrl.apply c.yelpUrl }
  | .photo p, c => { c with photo := p }
  | .serviceRadius radiusM, c => { c with serviceRadiusM := radiusM }
  | .verification outcome now day, c =>
    { c with
      verified := outcome.verified
      verifiedAt := if outcome.verified then some now else none
      verificationReason := some outcome.reason
      verified_is_dated := fun h => by simp [h]
      checkedOn := some day }

/-- The conditions on the columns that are written. -/
def checks : Change → Bool
  | .displayName name => isDisplayName name
  | .postalCode code _ => isWithin 10 code
  | .profile update =>
    isWithin 2000 update.bio && isWithin 500 update.websiteUrl && isWithin 32 update.publicPhone &&
      (List.reduceOption [update.bio, update.websiteUrl, update.publicPhone,
        update.ownerAddress.value.map OwnerAddress.line1,
        update.ownerAddress.value.map OwnerAddress.city,
        update.ownerAddress.value.map OwnerAddress.state,
        update.ownerAddress.value.map OwnerAddress.postalCode, update.googleReviewUrl.value,
        update.yelpUrl.value]).all isStorable
  | .serviceRadius radiusM => decide (0 < radiusM ∧ radiusM ≤ 200000)
  | .precisePoint _ | .location _ _ | .photo _ | .verification _ _ _ => true

end Change

/-- `attach_claimant`, of a row. -/
def Contractor.attachClaimant (userId : Uuid) (now : Instant) (c : Contractor) : Contractor :=
  { c with
    claimedByUserId := some userId
    claimedAt := some now
    acceptsDm := true
    claim_is_complete := iff_of_false nofun nofun }

/-! ### The statements on listings -/

/-- The statements on `contractors`. -/
inductive ListingStatement : Type → Type
  /-- Insert a listing; nothing is answered when it may not be stored. -/
  | insert (facts : SourceFacts) : ListingStatement (Option Uuid)
  /-- Update a listing; nothing is answered when it may not be stored. -/
  | update (id : Uuid) (change : Change) : ListingStatement (Option Bool)
  /-- Give a listing that has none an owner; nothing is answered when the account has a listing
  already, or may have none. -/
  | attach (id userId : Uuid) (now : Instant) : ListingStatement (Option (Option Bool))

/-- The table of listings. -/
abbrev Listings : Type := Table ℕ Uuid Contractor

namespace ListingStatement

variable {β : Type} (atlas : Atlas)

/-- **What a statement does.** -/
def run (m : Mode) (i : ℕ) : ListingStatement β → Listings → Option (β × Listings)
  | .insert facts, t =>
    if facts.checks then t.insertFresh m i facts.clashes facts.row else some (none, t)
  | .update k change, t =>
    t.modify m i k (Table.checking (fun _ => true) fun c =>
      if change.checks then some (change.apply c) else none)
  | .attach k userId now, t =>
    t.modifyUnique m i k (fun c' c => c.claimedByUserId = c'.claimedByUserId)
      (Table.checking (fun c => c.claimedByUserId = none) fun c =>
        if atlas.contractorAccount userId then some (c.attachClaimant userId now) else none)

/-- The versions of a listing that a statement puts over one. -/
def writes : ListingStatement β → Uuid → Option Contractor → Contractor → Prop
  | .insert facts, _, o, c' => o = none ∧ facts.checks = true ∧ c' = facts.row
  | .update id change, k, o, c' =>
    k = id ∧ change.checks = true ∧ ∃ c, o = some c ∧ c' = change.apply c
  | .attach id userId now, k, o, c' =>
    k = id ∧ ∃ c, o = some c ∧ c.claimedByUserId = none ∧ c' = c.attachClaimant userId now

variable {atlas} {q : ListingStatement β} {m : Mode} {i : ℕ} {t t' : Listings} {b : β}

theorem written (h : q.run atlas m i t = some (b, t')) :
    t.Written (fun m' k o c' => m' = m ∧ q.writes k o c') i t' := by
  cases q with
  | insert facts =>
    rw [run] at h
    split at h
    · rename_i hchecks
      exact Table.written_of_insertFresh h ⟨rfl, rfl, hchecks, rfl⟩
    · cases h
      exact .keep _
  | update k change =>
    refine Table.written_of_modify h fun c' hc' => ?_
    obtain ⟨c, hrow, -, hc⟩ := Table.checking_cases hc'
    split at hc
    · rename_i hchecks
      cases hc
      exact ⟨rfl, rfl, hchecks, c, hrow, rfl⟩
    · cases hc
  | attach k userId now =>
    refine Table.written_of_modifyUnique h fun c' hc' => ?_
    obtain ⟨c, hrow, hnone, hc⟩ := Table.checking_cases hc'
    split at hc
    · cases hc
      exact ⟨rfl, rfl, c, hrow, of_decide_eq_true hnone, rfl⟩
    · cases hc

end ListingStatement

/-! ### Trades, and the regions that are served -/

/-- Trade provenance. -/
inductive TradeSource
  | cslb
  | selfReported
  deriving DecidableEq

/-- The key of a row of `contractor_trades`. -/
structure TradeKey where
  contractorId : Uuid
  tradeId : Uuid
  source : TradeSource
  deriving DecidableEq

/-- The key of a row of `contractor_service_areas`. -/
structure AreaKey where
  contractorId : Uuid
  regionId : Uuid
  deriving DecidableEq

/-- The statements on a table whose rows are nothing but their keys. -/
inductive MemberStatement (K : Type) : Type → Type
  /-- `INSERT … ON CONFLICT DO NOTHING`. -/
  | add (k : K) : MemberStatement K Bool
  /-- `DELETE`. -/
  | drop (k : K) : MemberStatement K Bool

/-- **What a statement does.** -/
def MemberStatement.run {K β : Type} [DecidableEq K] (m : Mode) (i : ℕ) :
    MemberStatement K β → Table ℕ K Unit → Option (β × Table ℕ K Unit)
  | .add k, t => t.modify m i k (Table.inserting ())
  | .drop k, t => t.remove m i k fun _ => true

end Marketplace.Registry
