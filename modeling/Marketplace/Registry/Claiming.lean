import Marketplace.Registry.Badge

/-!
# The claim workflow

A claim is opened, and approved with that, in one transaction: the decision, the owner of the
listing, the role, the badge and the two events commit together. An administrator decides a claim
that is still pending in the same way, and reads it again once that is done; a claimant withdraws
one.

Each of them finds out whether the claim is pending before it decides it, and the update that
decides it finds out again. What it has found, `open` and `withdraw` do not ask.
-/

namespace Marketplace.Registry

open Audit (AuditEvent)
open ReadCommitted

variable (atlas : Atlas)

/-! ### What is read -/

/-- `messaging_target`, as far as a claim reads it: who owns the listing. -/
def messagingTarget (id : Uuid) : Registering (Option (Option Uuid)) :=
  .look fun j db => (db.contractors.row j id).map Contractor.claimedByUserId

/-- The listing that an account owns, as process `j` sees it. -/
def Db.ownedBy (db : Db) (j : ℕ) (userId : Uuid) : Option Uuid :=
  (db.contractors.scan j fun _ c => c.claimedByUserId = some userId).head?

/-- `claimed_by`. -/
def claimedBy (userId : Uuid) : Registering (Option Uuid) := .look fun j db => db.ownedBy j userId

/-- `claims::find`. -/
def Claims.find (id : Uuid) : Registering (Option Claim) := .look fun j db => db.claims.row j id

/-! ### What is written -/

/-- `claims::open`. -/
def Claims.open (contractorId userId : Uuid) (method : ClaimMethod) (evidence : Text) :
    Registering Uuid := do
  let now ← clock
  let opened ← Action.query <| .claim .tx <| .insert
    { contractorId := contractorId
      userId := userId
      method := method
      evidence := evidence
      createdAt := now }
  match opened with
  | some (some id) => pure id
  | some none => throw (.conflict "You already have a claim pending on this listing.")
  | none => throw (.internal "the evidence may not be stored")

/-- `claims::decide`: whether there was a claim to decide. -/
def Claims.decide (id : Uuid) (status : Decided) (decidedBy : Uuid) (note : Option Text) :
    Registering Bool := do
  let now ← clock
  let decided ← Action.query (.claim .tx (.decide id status decidedBy note now))
  match decided with
  | some (some decided) => pure decided
  | some none => throw (.internal "a check constraint is violated")
  | none => throw (.conflict "That listing or account already has an approved claim.")

/-- `attach_claimant`: whether the listing was there to be given. -/
def attachClaimant (id userId : Uuid) : Registering Bool := do
  let now ← clock
  let attached ← Action.query (.listing .tx (.attach id userId now))
  match attached with
  | some (some attached) => pure attached
  | some none => throw (.internal "a listing may only be claimed by a contractor account")
  | none => throw (.internal "duplicate key")

/-- `grant_role`. -/
def grantRole (userId : Uuid) (role : Role) (grantedBy : Option Uuid) : Registering Bool :=
  Action.query (.grantRole .tx userId role ⟨grantedBy⟩)

/-- `record_check`. -/
def recordCheck (check : Check) : Registering Unit := do
  let id ← Action.query (.recordCheck .tx check)
  match id with
  | some _ => pure ()
  | none => throw (.internal "duplicate key")

/-! ### Opening a claim -/

/-- The event of a claim that is opened. -/
def opened (contractorId userId id : Uuid) (method : ClaimMethod) (requestId : Option Uuid) :
    AuditEvent :=
  (AuditEvent.new "claim.opened" "contractor_claims")
    |>.actor .user (some userId)
    |>.subject id
    |>.detail [("contractor_id", .id contractorId), ("method", .text method.asStr)]
    |>.request requestId

/-- The event of a claim that is approved with its opening. -/
def autoApproved (contractorId userId id : Uuid) (outcome : Outcome) (requestId : Option Uuid) :
    AuditEvent :=
  (AuditEvent.new "claim.approved" "contractor_claims")
    |>.actor .user (some userId)
    |>.subject id
    |>.detail
      [("contractor_id", .id contractorId),
        ("claimant", .id userId),
        ("auto_approved", .flag true),
        ("verified", .flag outcome.verified),
        ("verification_reason", .text outcome.reason)]
    |>.request requestId

/-- Approve a claim that has just been opened. -/
def approveOpened (contractorId userId id : Uuid) (requestId : Option Uuid) :
    Registering Claim := do
  -- the claimant decides it, and whether there was a claim to decide is not asked
  let _ ← Claims.decide id ⟨.approved, nofun⟩ userId
    (some "auto-approved at launch; no moderator reviewed this claim".toList)
  let attached ← attachClaimant contractorId userId
  if attached then do
    let _ ← grantRole userId .contractor none
    let outcome ← recompute atlas contractorId
    record (autoApproved contractorId userId id outcome requestId)
    let approved ← Claims.find id
    match approved with
    | some approved => pure approved
    | none => throw .notFound
  else throw (.conflict "This listing has already been claimed.")

/-- The transaction of `open`. -/
def openRow (contractorId userId : Uuid) (method : ClaimMethod) (evidence : Text)
    (requestId : Option Uuid) : Registering Claim := do
  let target ← messagingTarget contractorId
  match target with
  | none => throw .notFound
  | some (some _) => throw (.conflict "This listing has already been claimed.")
  | some none => do
    let owned ← claimedBy userId
    if owned.isSome then throw (.conflict "Your account has already claimed a listing.")
    else do
      let id ← Claims.open contractorId userId method evidence
      record (opened contractorId userId id method requestId)
      approveOpened atlas contractorId userId id requestId

/-- **`open`**: open a claim on a listing, and approve it. -/
def openClaim (fault : Option ℕ) (contractorId userId : Uuid) (method : ClaimMethod)
    (evidence : Text) (requestId : Option Uuid) : Registering Claim :=
  inTransaction fault (openRow atlas contractorId userId method evidence requestId)

/-! ### Withdrawing one -/

/-- The event of a claim that is withdrawn. -/
def withdrawn (id userId : Uuid) (requestId : Option Uuid) : AuditEvent :=
  (AuditEvent.new "claim.withdrawn" "contractor_claims")
    |>.actor .user (some userId)
    |>.subject id
    |>.request requestId

/-- The transaction of `withdraw`. -/
def withdrawRow (id userId : Uuid) (requestId : Option Uuid) : Registering Unit := do
  let claim ← Claims.find id
  match claim with
  | none => throw .notFound
  | some claim =>
    if claim.userId ≠ userId then throw .notFound
    else if claim.status ≠ .pending then throw (.conflict "That claim has already been decided.")
    else do
      -- whether there was a claim to decide is not asked
      let _ ← Claims.decide id ⟨.withdrawn, nofun⟩ userId none
      record (withdrawn id userId requestId)

/-- **`withdraw`**: withdraw one's own pending claim. -/
def withdrawClaim (fault : Option ℕ) (id userId : Uuid) (requestId : Option Uuid) :
    Registering Unit :=
  inTransaction fault (withdrawRow id userId requestId)

/-! ### Deciding one -/

/-- The outcome of an administrative decision. -/
structure Decision where
  claim : Claim
  verified : Bool
  verificationReason : Text
  deriving DecidableEq

/-- The status that a claim is given. -/
def verdict (approve : Bool) : Decided :=
  if approve then ⟨.approved, nofun⟩ else ⟨.rejected, nofun⟩

/-- Give the listing to the claimant, when the claim is approved. -/
def transfer (approve : Bool) (claim : Claim) (adminId : Uuid) : Registering Unit :=
  if approve then do
    let attached ← attachClaimant claim.contractorId claim.userId
    if attached then do
      let _ ← grantRole claim.userId .contractor (some adminId)
      pure ()
    else throw (.conflict "That listing was claimed by someone else.")
  else pure ()

/-- The check that an administrator performed. -/
def manualReview (id : Uuid) (claim : Claim) (approve : Bool) (adminId : Uuid)
    (note : Option Text) : Check where
  contractorId := claim.contractorId
  claimId := some id
  kind := "manual_review"
  outcome := if approve then "pass" else "fail"
  note := note
  performedBy := some adminId

/-- The event of a decision. -/
def decided (id : Uuid) (claim : Claim) (approve : Bool) (adminId : Uuid) (outcome : Outcome)
    (requestId : Option Uuid) : AuditEvent :=
  (AuditEvent.new (if approve then "claim.approved" else "claim.rejected") "contractor_claims")
    |>.actor .admin (some adminId)
    |>.subject id
    |>.detail
      [("contractor_id", .id claim.contractorId),
        ("claimant", .id claim.userId),
        ("verified", .flag outcome.verified),
        ("verification_reason", .text outcome.reason)]
    |>.request requestId

/-- The transaction of `decide`. -/
def decideRow (id : Uuid) (approve : Bool) (adminId : Uuid) (note : Option Text)
    (requestId : Option Uuid) : Registering Outcome := do
  let claim ← Claims.find id
  match claim with
  | none => throw .notFound
  | some claim =>
    if claim.status ≠ .pending then throw (.conflict "That claim has already been decided.")
    else do
      let hit ← Claims.decide id (verdict approve) adminId note
      if hit then do
        transfer approve claim adminId
        recordCheck (manualReview id claim approve adminId note)
        let outcome ← recompute atlas claim.contractorId
        record (decided id claim approve adminId outcome requestId)
        pure outcome
      else throw (.conflict "That claim has already been decided.")

/-- Read a claim again, once it is decided. -/
def reread (id : Uuid) (outcome : Outcome) : Registering Decision := do
  let decided ← Claims.find id
  match decided with
  | some decided => pure ⟨decided, outcome.verified, outcome.reason⟩
  | none => throw .notFound

/-- **`decide`**: approve or reject a claim. The step number `later` of what comes after the
transaction fails. -/
def decideClaim (fault later : Option ℕ) (id : Uuid) (approve : Bool) (adminId : Uuid)
    (note : Option Text) (requestId : Option Uuid) : Registering Decision := do
  let outcome ← inTransaction fault (decideRow atlas id approve adminId note requestId)
  Registering.failAt later (reread id outcome)

end Marketplace.Registry
