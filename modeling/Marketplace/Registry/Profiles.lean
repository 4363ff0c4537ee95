import Marketplace.Registry.Claiming

/-!
# What an owner edits

The owner of a listing edits its profile in one transaction, in which a change of the address is
also queued for geocoding, and a change of what is published of it takes effect. The photograph,
the radius and the regions that are served are written by statements of their own.

Every request finds out first whether the caller owns the listing, and checks what it is given
before it writes any of it.
-/

namespace Marketplace.Registry

open ReadCommitted

variable (atlas : Atlas)

/-! ### Profiles -/

/-- The body of a profile edit. Of a field that may be cleared, `some none` is a `null`. -/
structure UpdateProfileRequest where
  bio : Option Text := none
  websiteUrl : Option Text := none
  publicPhone : Option Text := none
  acceptsDm : Option Bool := none
  addressVisibility : Option Text := none
  ownerAddress : Option (Option OwnerAddress) := none
  googleReviewUrl : Option (Option Text) := none
  yelpUrl : Option (Option Text) := none
  /-- The body mentions the badge. -/
  verified : Bool := false
  deriving DecidableEq

/-- `edit`. -/
def edit {α : Type} : Option (Option α) → Edit α
  | none => .unchanged
  | some none => .cleared
  | some (some value) => .set value

/-- What follows the first `//` of a text. -/
def afterSlashes : Text → Option Text
  | [] => none
  | '/' :: '/' :: rest => some rest
  | _ :: rest => afterSlashes rest

/-- The host of a link, once it is in lower case. -/
def hostOf (lowered : Text) : Text :=
  ((afterSlashes lowered).map fun rest => (rest.splitOn '/').headD []).getD []

/-- `clean_link`. -/
def cleanLink (value : Text) (field : String) : Except AppError Text :=
  let trimmed := trim value
  let lowered := trimmed.map Char.toLower
  let host := hostOf lowered
  if trimmed.isEmpty then .error (.invalid (field ++ " cannot be blank."))
  else if !("https://".toList.isPrefixOf lowered || "http://".toList.isPrefixOf lowered) then
    .error (.invalid (field ++ " must start with https:// or http://"))
  else if host.isEmpty || !host.contains '.' || host.any isWhitespace then
    .error (.invalid (field ++ " is not a valid link."))
  else if trimmed.length > 500 then .error (.invalid (field ++ " is too long."))
  else .ok trimmed

/-- `clean_address_part`. -/
def cleanAddressPart (value : Text) (field : String) : Except AppError Text :=
  let trimmed := trim value
  if trimmed.isEmpty then .error (.invalid (field ++ " cannot be blank."))
  else if trimmed.length > 200 then .error (.invalid (field ++ " is too long."))
  else .ok trimmed

namespace UpdateProfileRequest

/-- The visibility that is asked for. -/
def visibility (body : UpdateProfileRequest) : Except AppError (Option AddressVisibility) :=
  match body.addressVisibility with
  | none => .ok none
  | some value => match AddressVisibility.parse value with
    | some visibility => .ok (some visibility)
    | none => .error (.invalid ("unknown address_visibility \"" ++ String.ofList value ++
        "\"; expected protected or public"))

/-- The edit of the address that is asked for. -/
def address (body : UpdateProfileRequest) : Except AppError (Edit OwnerAddress) :=
  match body.ownerAddress with
  | none => .ok .unchanged
  | some none => .ok .cleared
  | some (some a) => do
    let line1 ← cleanAddressPart a.line1 "Street address"
    let city ← cleanAddressPart a.city "City"
    let state ← cleanAddressPart a.state "State"
    let postalCode ← cleanAddressPart a.postalCode "ZIP code"
    pure (.set ⟨line1, city, state, postalCode⟩)

/-- The edit of a link that is asked for. -/
def link (value : Option (Option Text)) (field : String) : Except AppError (Edit Text) :=
  match edit value with
  | .set value => (cleanLink value field).map .set
  | other => .ok other

/-- What a body asks for, when it is one that may be asked for. -/
def update (body : UpdateProfileRequest) : Except AppError ProfileUpdate := do
  let visibility ← body.visibility
  let ownerAddress ← body.address
  let googleReviewUrl ← link body.googleReviewUrl "Google review link"
  let yelpUrl ← link body.yelpUrl "Yelp link"
  pure
    { bio := body.bio
      websiteUrl := body.websiteUrl
      publicPhone := body.publicPhone
      acceptsDm := body.acceptsDm
      addressVisibility := visibility
      ownerAddress := ownerAddress
      googleReviewUrl := googleReviewUrl
      yelpUrl := yelpUrl }

end UpdateProfileRequest

/-- What follows from an edit of a profile. -/
def followEdit (id : Uuid) (update : ProfileUpdate) : Registering Unit := do
  -- turning publication off has to take effect now
  let _ ← (if update.addressVisibility.isSome then reapply atlas id else pure ())
  if update.ownerAddress = .unchanged then pure () else relocateAfterAddressChange atlas id

/-- The transaction of a profile edit. -/
def profileRow (id : Uuid) (update : ProfileUpdate) : Registering Unit := do
  updateListing .tx id (.profile update)
  followEdit atlas id update

/-- Read a listing again, once it is edited. -/
def rereadListing (id : Uuid) : Registering Contractor := do
  let stored ← Action.look fun j db => db.contractors.row j id
  match stored with
  | some c => pure c
  | none => throw .notFound

/-- **`update_profile`**, as the handler of a request has it. -/
def updateProfile (fault later : Option ℕ) (caller id : Uuid) (body : UpdateProfileRequest) :
    Registering Contractor :=
  if body.verified then throw (.invalid
    "\"verified\" is computed from licence and claim state and cannot be set.")
  else do
    let owner ← claimedBy caller
    if owner = some id then
      match body.update with
      | .ok update => do
        inTransaction fault (profileRow atlas id update)
        Registering.failAt later (rereadListing id)
      | .error e => throw e
    else throw .forbidden

/-! ### The photograph -/

/-- `owned_listing`: only for the owner of a listing. -/
def ownedListing {α : Type} (userId id : Uuid) (p : Registering α) : Registering α := do
  let owned ← claimedBy userId
  if owned = some id then p else throw .notFound

/-- **`set_photo`**, under a new key. The object is in the store when the row is written. -/
def setPhoto (fault : Option ℕ) (caller id key : Uuid) (bytes : List UInt8) :
    Registering ProfilePhoto :=
  Registering.failAt fault <| ownedListing caller id <|
    match atlas.normalise bytes with
    | .error e => throw e
    | .ok (width, height) => do
      let photo : ProfilePhoto := ⟨(id, key), width, height⟩
      updateListing .auto id (.photo (some photo))
      pure photo

/-- **`remove_photo`**. -/
def removePhoto (fault : Option ℕ) (caller id : Uuid) : Registering Unit :=
  Registering.failAt fault <| ownedListing caller id <| updateListing .auto id (.photo none)

/-! ### Where a listing serves -/

/-- A region by its ZIP code, or a radius. -/
inductive ServiceAreaInput
  | region (code : Text)
  | radius (radiusM : ℤ)
  deriving DecidableEq

/-- What is declared of where a listing serves. -/
structure DeclaredAreas where
  codes : List Text := []
  radiusM : Option ℕ := none
  deriving DecidableEq

/-- The most areas one contractor may declare. -/
def maxAreas : ℕ := 40

/-- The largest radius a contractor may claim. -/
def maxRadiusM : ℕ := 200000

/-- What a list of areas declares, after what has been declared. -/
def declareEach (declared : DeclaredAreas) : List ServiceAreaInput → Except AppError DeclaredAreas
  | [] => .ok declared
  | .region code :: inputs =>
    let code := trim code
    if Search.isZip code then declareEach { declared with codes := declared.codes ++ [code] } inputs
    else .error (.invalid ("\"" ++ String.ofList code ++ "\" is not a five-digit ZIP code."))
  | .radius radiusM :: inputs =>
    if declared.radiusM.isSome then
      .error (.invalid "A listing may set one travel radius, not several.")
    else if 1 ≤ radiusM ∧ radiusM ≤ maxRadiusM then
      declareEach { declared with radiusM := some radiusM.toNat } inputs
    else .error (.invalid
      ("A travel radius must be between 1 and " ++ toString maxRadiusM ++ " metres."))

/-- What a list of areas declares. -/
def declareAreas (inputs : List ServiceAreaInput) : Except AppError DeclaredAreas :=
  if inputs.length > maxAreas then
    .error (.invalid ("A listing may declare at most " ++ toString maxAreas ++ " service areas."))
  else declareEach {} inputs

/-- `require_claimant`: only for the owner of a listing. -/
def requireClaimant {α : Type} (userId id : Uuid) (p : Registering α) : Registering α := do
  let owned ← claimedBy userId
  if owned = some id then p else throw .forbidden

/-- Serve one region; the answer is whether it is new. -/
def addArea (id : Uuid) (code : Text) : Registering Bool :=
  match atlas.findZcta code with
  | some region => Action.query (.area .auto (.add ⟨id, region.id⟩))
  | none => pure false

/-- Serve each of the regions; the answer is the ones that were not taken. -/
def addAreas (id : Uuid) : List Text → Registering (List Text)
  | [] => pure []
  | code :: codes => do
    let new ← addArea atlas id code
    let unknown ← addAreas id codes
    pure (if new then unknown else code :: unknown)

/-- The regions that a listing serves, as process `j` sees them. -/
def areasOf (id : Uuid) (j : ℕ) (db : Db) : List AreaKey :=
  db.areas.scan j fun key _ => key.contractorId = id

/-- `service_areas::replace`: each statement on its own, the first one over several rows. -/
def replaceAreas (id : Uuid) (declared : DeclaredAreas) : Registering (List Text) := do
  let _ ← Action.transaction .commit .rollback do
    let old ← Action.look (areasOf id)
    Action.ofProg (Prog.countEach old fun key => .query (.area .tx (.drop key)) .ret)
  updateListing .auto id
    (.serviceRadius (declared.radiusM.getD Directory.defaultServiceRadiusM))
  addAreas atlas id (declared.codes.take maxAreas)

/-- **`service_areas_put`**. -/
def putServiceAreas (caller id : Uuid) (inputs : List ServiceAreaInput) :
    Registering (List Text) :=
  match declareAreas inputs with
  | .error e => throw e
  | .ok declared => requireClaimant caller id (replaceAreas atlas id declared)

end Marketplace.Registry
