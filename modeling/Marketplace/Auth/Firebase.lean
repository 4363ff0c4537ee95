import Marketplace.Auth.Accounts

/-!
# What a token says

A provider's sign-in ends in a token, whose claims are checked against the one provider that the
caller asked about (`Marketplace.Firebase.checkClaims`), and are then read for an identity: the
provider's own subject, an address, and whether the address is verified.

The address is the one that the token claims, and where it claims none, the only one that its
identities carry. The flag is that of the token in either case, and it is about the address that
the token claims; where there is none, an address may be taken for verified that nobody has proved
(`Marketplace.Firebase.FirebaseClaims.Recovers`).
-/

namespace Marketplace.Firebase

open Accounts

/-- The claims that are required and read. -/
structure FirebaseClaims where
  sub : Text
  userId : Option Text := none
  email : Option Text := none
  emailVerified : Option Bool := none
  name : Option Text := none
  authTime : ℤ
  exp : ℤ
  iat : ℤ
  iss : Text
  aud : Text
  signInProvider : Text
  identities : Text → Option (List Text) := fun _ => none

/-- `firebase_provider_id`. -/
def firebaseProviderId : Provider → Text
  | .google => "google.com".toList
  | .facebook => "facebook.com".toList

/-- `LEEWAY_SECS`. -/
def leewaySecs : ℤ := 60

/-- The issuer of the tokens of a project. -/
def issuer (projectId : Text) : Text := "https://securetoken.google.com/".toList ++ projectId

/-- **`check_claims`**, at a time, for the provider that was asked about. -/
def checkClaims (projectId : Text) (now : ℤ) (provider : Provider) (claims : FirebaseClaims) :
    Except AppError Unit :=
  if claims.iss ≠ issuer projectId then .error (.invalid "The sign-in token has the wrong issuer.")
  else if claims.aud ≠ projectId then .error (.invalid "The sign-in token is for another project.")
  else if claims.exp ≤ now - leewaySecs then .error (.invalid "The sign-in token has expired.")
  else if claims.iat > now + leewaySecs then
    .error (.invalid "The sign-in token was issued in the future.")
  else if claims.authTime > now + leewaySecs then
    .error (.invalid "The sign-in token was authenticated in the future.")
  else if (trim claims.sub).isEmpty then .error (.invalid "The sign-in token names no subject.")
  else if claims.userId.any (· ≠ claims.sub) then
    .error (.invalid "The sign-in token is inconsistent.")
  else if claims.signInProvider ≠ firebaseProviderId provider then
    .error (.invalid "That sign-in method is not supported.")
  else .ok ()

/-- The provider's own subject, from the provider's own slot. -/
def providerSubject (provider : Provider) (claims : FirebaseClaims) : Except AppError Text :=
  match (claims.identities (firebaseProviderId provider)).getD [] with
  | [] => .error (.invalid
      ("The sign-in token carries no " ++ provider.displayName ++ " identity."))
  | [only] =>
    if (trim only).isEmpty then .error (.invalid
      ("The sign-in token carries more than one " ++ provider.displayName ++ " identity."))
    else .ok only
  | _ => .error (.invalid
      ("The sign-in token carries more than one " ++ provider.displayName ++ " identity."))

/-- The only address among the identities. -/
def emailSlot (claims : FirebaseClaims) : Option Text :=
  match claims.identities "email".toList with
  | some [only] => if (trim only).isEmpty then none else some only
  | _ => none

/-- What the claims say of who signed in. -/
def identityOf (subject : Text) (claims : FirebaseClaims) : VerifiedIdentity where
  providerSubject := subject
  firebaseUid := claims.sub
  email := claims.email <|> emailSlot claims
  emailFromIdentities := claims.email.isNone && (emailSlot claims).isSome
  emailVerified := claims.emailVerified.getD false
  name := (claims.name.map trim).filter fun name => !name.isEmpty

/-- **A verifier**: how the tokens of a project are decoded, and what time it is, for each of the
processes that ask. -/
structure Verifier where
  projectId : Text
  /-- `verify_signed`, or `decode_unsigned`. -/
  decode : ℕ → Text → Except AppError FirebaseClaims
  now : ℕ → ℤ

/-- **`verify`**. -/
def Verifier.verify (v : Verifier) (i : ℕ) (token : Text) (provider : Provider) :
    Except AppError VerifiedIdentity := do
  let claims ← v.decode i token
  checkClaims v.projectId (v.now i) provider claims
  let subject ← providerSubject provider claims
  return identityOf subject claims

/-- **The token vouches for an address that it does not claim**: it claims none, its identities
carry one, and its flag is set. -/
def FirebaseClaims.Recovers (claims : FirebaseClaims) : Prop :=
  claims.email = none ∧ emailSlot claims ≠ none ∧ claims.emailVerified = some true

/-- The address of the account is the one that the token claims. -/
def FirebaseClaims.Claims (claims : FirebaseClaims) (user : User) : Prop :=
  ∃ claimed ∈ claims.email, ∃ own ∈ user.email,
    eqIgnoreAsciiCase (trim claimed) (trim own) = true

variable {v : Verifier} {i : ℕ} {token : Text} {provider : Provider} {claims : FirebaseClaims}
  {identity : VerifiedIdentity}

/-- An identity is what the claims of its token say. -/
theorem verify_eq (hclaims : v.decode i token = .ok claims)
    (h : v.verify i token provider = .ok identity) :
    ∃ subject, identity = identityOf subject claims := by
  rw [Verifier.verify, hclaims] at h
  simp only [bind, Except.bind] at h
  split at h
  · cases h
  · split at h
    · cases h
    · cases h
      exact ⟨_, rfl⟩

/-- **What an identity vouches for is claimed by its token** exactly where the token recovers no
address. -/
theorem vouchesFor_claims_iff (subject : Text) :
    (∀ user, vouchesFor (identityOf subject claims) user = true → claims.Claims user) ↔
      ¬ claims.Recovers := by
  constructor
  · rintro h ⟨hnone, hslot, hflag⟩
    obtain ⟨address, haddress⟩ := Option.ne_none_iff_exists'.mp hslot
    have hvouches : vouchesFor (identityOf subject claims)
        { email := some address, displayName := [], accountType := .homeowner } = true := by
      simp [vouchesFor, identityOf, hnone, haddress, hflag, eqIgnoreAsciiCase]
    obtain ⟨claimed, hclaimed, -⟩ := h _ hvouches
    rw [hnone] at hclaimed
    cases hclaimed
  · intro hclean user hvouches
    simp only [vouchesFor, Bool.and_eq_true, Option.any_eq_true] at hvouches
    obtain ⟨hflag, claimed, hclaimed, own, hown, hsame⟩ := hvouches
    rcases hemail : claims.email with _ | email
    · refine absurd ⟨hemail, ?_, ?_⟩ hclean
      · intro hslot
        simp [identityOf, hemail, hslot] at hclaimed
      · rcases hverified : claims.emailVerified with _ | _ | _
        · simp [identityOf, hverified] at hflag
        · simp [identityOf, hverified] at hflag
        · rfl
    · have heq : (identityOf subject claims).email = some email := by simp [identityOf, hemail]
      rw [heq] at hclaimed
      cases hclaimed
      exact ⟨claimed, hemail, own, hown, hsame⟩

end Marketplace.Firebase
