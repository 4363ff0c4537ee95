import Marketplace.Registry.Atlas
import Marketplace.ReadCommitted.Lasting
import Marketplace.Auth.Accounts

/-!
# Claims, roles and checks

A claim is made on a listing by an account, and is decided once: the one update there is finds it
pending (`Marketplace.Registry.Claim.decide`). Two partial unique indexes bound the claims that
may stand beside one another.
-/

namespace Marketplace.Registry

open ReadCommitted

/-- Where a claim is. -/
inductive ClaimStatus
  | pending
  | approved
  | rejected
  | withdrawn
  deriving DecidableEq

/-- The status of a claim that has been decided. -/
abbrev Decided : Type := { s : ClaimStatus // s ≠ .pending }

/-- How a claimant proposes to prove that a listing is theirs. -/
inductive ClaimMethod
  | licensePhoneOtp
  | licenseMailCode
  | manualReview
  deriving DecidableEq

/-- `ClaimMethod::as_str`. -/
def ClaimMethod.asStr : ClaimMethod → Text
  | .licensePhoneOtp => "license_phone_otp".toList
  | .licenseMailCode => "license_mail_code".toList
  | .manualReview => "manual_review".toList

/-- **A row of `contractor_claims`.** -/
structure Claim where
  contractorId : Uuid
  userId : Uuid
  status : ClaimStatus := .pending
  method : ClaimMethod
  /-- What the claimant asserted, as it is written. -/
  evidence : Text
  decisionNote : Option Text := none
  decidedBy : Option Uuid := none
  createdAt : Instant
  decidedAt : Option Instant := none
  /-- `contractor_claims_decided_iff_not_pending`. -/
  decided_iff_not_pending : status = .pending ↔ decidedAt = none := by simp
  deriving DecidableEq

/-- A claim that is pending has not been decided. -/
theorem pending_iff_undecided : ClaimStatus.pending = .pending ↔ (none : Option Instant) = none :=
  iff_of_true rfl rfl

namespace Claim

/-- The row once it is decided; nothing when the note may not be stored. -/
def decide (status : Decided) (decidedBy : Uuid) (note : Option Text) (now : Instant)
    (claim : Claim) : Option Claim :=
  if isWithin 2000 note && note.all isStorable then
    some { claim with
      status := status.1
      decisionNote := note
      decidedBy := some decidedBy
      decidedAt := some now
      decided_iff_not_pending := iff_of_false status.2 nofun }
  else none

/-- Two claims that the unique indexes do not let stand beside one another. -/
def clashes (claim other : Claim) : Bool :=
  (claim.status = .pending && other.status = .pending && claim.contractorId = other.contractorId &&
      claim.userId = other.userId) ||
    (claim.status = .approved && other.status = .approved &&
      (claim.contractorId = other.contractorId || claim.userId = other.userId))

/-- **What deciding a claim does** to it. -/
theorem decide_eq {status : Decided} {decidedBy : Uuid} {note : Option Text} {now : Instant}
    {claim claim' : Claim} (h : claim.decide status decidedBy note now = some claim') :
    claim'.contractorId = claim.contractorId ∧ claim'.userId = claim.userId ∧
      claim'.status = status.1 ∧ claim'.decidedBy = some decidedBy := by
  rw [decide] at h
  split at h
  · cases h
    exact ⟨rfl, rfl, rfl, rfl⟩
  · cases h

end Claim

/-- The statements on `contractor_claims`. -/
inductive ClaimStatement : Type → Type
  /-- Open a claim; nothing is answered, in the first place, when the evidence may not be stored,
  and in the second when there is one pending already. -/
  | insert (claim : Claim) : ClaimStatement (Option (Option Uuid))
  /-- Decide a claim, unless it is decided; nothing is answered, in the first place, when another
  approved claim is in the way, and in the second when the note may not be stored. -/
  | decide (id : Uuid) (status : Decided) (decidedBy : Uuid) (note : Option Text) (now : Instant) :
      ClaimStatement (Option (Option Bool))

/-- The table of claims. -/
abbrev ClaimTable : Type := Table ℕ Uuid Claim

namespace ClaimStatement

variable {β : Type}

/-- **What a statement does.** -/
def run (m : Mode) (i : ℕ) : ClaimStatement β → ClaimTable → Option (β × ClaimTable)
  | .insert claim, t =>
    if isStorable claim.evidence then
      (t.insertFresh m i claim.clashes claim).map fun p => (some p.1, p.2)
    else some (none, t)
  | .decide k status decidedBy note now, t =>
    t.modifyUnique m i k Claim.clashes
      (Table.checking (fun claim => claim.status = .pending) fun claim =>
        claim.decide status decidedBy note now)

/-- The versions of a claim that a statement puts over one. -/
def writes : ClaimStatement β → Uuid → Option Claim → Claim → Prop
  | .insert claim, _, o, claim' => o = none ∧ claim' = claim
  | .decide id status decidedBy note now, k, o, claim' =>
    k = id ∧ ∃ claim, o = some claim ∧ claim.status = .pending ∧
      claim.decide status decidedBy note now = some claim'

variable {q : ClaimStatement β} {m : Mode} {i : ℕ} {t t' : ClaimTable} {b : β}

theorem written (h : q.run m i t = some (b, t')) :
    t.Written (fun m' k o claim' => m' = m ∧ q.writes k o claim') i t' := by
  cases q with
  | insert claim =>
    rw [run] at h
    split at h
    · obtain ⟨⟨b', t₁⟩, ht, he⟩ := Option.map_eq_some_iff.mp h
      cases he
      exact Table.written_of_insertFresh ht ⟨rfl, rfl, rfl⟩
    · cases h
      exact .keep _
  | decide k status decidedBy note now =>
    refine Table.written_of_modifyUnique h fun claim' hc' => ?_
    obtain ⟨claim, hrow, hpending, hc⟩ := Table.checking_cases hc'
    exact ⟨rfl, rfl, claim, hrow, of_decide_eq_true hpending, hc⟩

end ClaimStatement

/-- A row of `user_roles`, of an account and a role. -/
structure RoleGrant where
  grantedBy : Option Uuid
  deriving DecidableEq

/-- A row of `verification_checks`: a check that somebody performed. -/
structure Check where
  contractorId : Uuid
  claimId : Option Uuid
  kind : String
  outcome : String
  note : Option Text
  performedBy : Option Uuid
  deriving DecidableEq

end Marketplace.Registry
