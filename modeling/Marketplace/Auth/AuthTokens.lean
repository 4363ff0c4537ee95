import Marketplace.ReadCommitted.Statements
import Marketplace.Auth.Text

/-!
# Sign-in codes, address confirmations and reset links

The rows of `auth_tokens` and the statements that write one. A code is addressed by
the identifier of its challenge and carries an attempt counter; a link is addressed
by its digest. Both are single-use, and both are spent by the same kind of
statement: an update whose condition is evaluated on the latest version of the
row, once its lock is free (`Marketplace.AuthTokens.Query.act`).

The token of a sign-in code also carries which password its sign-in was authorised
by, a history variable that no statement reads.
-/

namespace Marketplace

open ReadCommitted

/-- What a token is for. -/
inductive Purpose
  /-- Proving an address. -/
  | emailVerify
  /-- Signing in. -/
  | loginCode
  /-- Resetting a password. -/
  | passwordReset
  deriving DecidableEq

/-- A row of `auth_tokens`. -/
structure AuthToken where
  /-- The account. -/
  userId : Uuid
  /-- What the token is for. -/
  purpose : Purpose
  /-- The digest of the code or of the link. -/
  tokenHash : Digest
  /-- When the token dies of age. -/
  expiresAt : Instant
  /-- When it was spent. -/
  consumedAt : Option Instant := none
  /-- How many guesses it has seen. -/
  attempts : ℕ := 0
  /-- The generation of the password that authorised the sign-in. -/
  authorisedBy : Option ℕ := none
  deriving DecidableEq

/-- The token can still be spent. -/
def AuthToken.live (t : AuthToken) (now : Instant) : Bool :=
  t.consumedAt.isNone && decide (now < t.expiresAt)

/-- What one guess at a code produced. -/
inductive CodeOutcome
  /-- The code matched, for this account and this authorisation; the challenge is
  consumed. -/
  | matched (userId : Uuid) (authorisedBy : Option ℕ)
  /-- Wrong code; the challenge survives unless this was the last attempt. -/
  | wrong
  /-- No such challenge, or it is expired, consumed, or out of attempts. -/
  | gone
  deriving DecidableEq

namespace AuthTokens

/-- **The statements that write a token.** -/
inductive Query : Type → Type 1
  /-- Consume an open token of the account, in favour of a new one. -/
  | consumeOpen (id userId : Uuid) (purpose : Purpose) (now : Instant) : Query (Option Unit)
  /-- Insert a token. -/
  | insert (id : Uuid) (token : AuthToken) : Query Bool
  /-- Spend one attempt on a challenge. -/
  | verifyCode (challengeId : Uuid) (purpose : Purpose) (codeHash : Digest) (maxAttempts : ℕ)
      (now : Instant) : Query CodeOutcome
  /-- Consume a link. -/
  | consumeLink (id : Uuid) (tokenHash : Digest) (purpose : Purpose) (now : Instant) :
      Query (Option Uuid)

variable {β : Type}

/-- The row a statement is about. -/
def Query.key : Query β → Uuid
  | .consumeOpen k _ _ _ => k
  | .insert k _ => k
  | .verifyCode k _ _ _ _ => k
  | .consumeLink k _ _ _ => k

/-- **What a statement does to the latest version of its row.** -/
def Query.act : Query β → Option AuthToken → β × Option AuthToken
  | .consumeOpen _ userId purpose now => Table.updating fun t =>
    if t.userId = userId ∧ t.purpose = purpose ∧ t.consumedAt = none then
      some ((), { t with consumedAt := some now })
    else none
  | .insert _ token => Table.inserting token
  | .verifyCode _ purpose codeHash maxAttempts now => fun
    | some t =>
      if t.purpose = purpose ∧ t.consumedAt = none ∧ now < t.expiresAt then
        (if t.tokenHash = codeHash then .matched t.userId t.authorisedBy else .wrong,
          some { t with
            attempts := t.attempts + 1
            consumedAt :=
              if t.tokenHash = codeHash ∨ t.attempts + 1 ≥ maxAttempts then some now else none })
      else (.gone, none)
    | none => (.gone, none)
  | .consumeLink _ tokenHash purpose now => Table.updating fun t =>
    if t.tokenHash = tokenHash ∧ t.purpose = purpose ∧ t.consumedAt = none ∧ now < t.expiresAt then
      some (t.userId, { t with consumedAt := some now })
    else none

/-- **What one statement can do to a token**, said once. -/
inductive Act : Option AuthToken → AuthToken → Prop
  /-- An open token is consumed. -/
  | consumed (t : AuthToken) (now : Instant) (h : t.consumedAt = none) :
      Act (some t) { t with consumedAt := some now }
  /-- A token is inserted. -/
  | inserted (t : AuthToken) : Act none t
  /-- A guess at an open token, which may consume it. -/
  | guessed (t : AuthToken) (consumedAt : Option Instant) (h : t.consumedAt = none) :
      Act (some t) { t with attempts := t.attempts + 1, consumedAt := consumedAt }

theorem act_of_query {q : Query β} {o : Option AuthToken} {t : AuthToken}
    (h : (q.act o).2 = some t) : Act o t := by
  cases q with
  | consumeOpen k userId purpose now =>
    simp only [Query.act] at h
    obtain ⟨t₀, b, rfl, ht⟩ := Table.updating_cases h
    split at ht
    · rename_i hopen
      cases ht
      exact .consumed t₀ now hopen.2.2
    · cases ht
  | insert k token =>
    obtain ⟨rfl, rfl⟩ := Table.inserting_cases h
    exact .inserted t
  | verifyCode k purpose codeHash maxAttempts now =>
    rcases o with _ | t₀
    · cases h
    · simp only [Query.act] at h
      split at h
      · rename_i hopen
        cases h
        exact .guessed t₀ _ hopen.2.1
      · cases h
  | consumeLink k tokenHash purpose now =>
    simp only [Query.act] at h
    obtain ⟨t₀, b, rfl, ht⟩ := Table.updating_cases h
    split at ht
    · rename_i hopen
      cases ht
      exact .consumed t₀ now hopen.2.2.1
    · cases ht

/-! ### What a token keeps -/

/-- **A later version of a token** has the same account, purpose, digest and expiry, and is
still consumed if it was. -/
structure Kept (t t' : AuthToken) : Prop where
  /-- Whom it is for. -/
  userId : t'.userId = t.userId
  /-- What it is for. -/
  purpose : t'.purpose = t.purpose
  /-- Its digest. -/
  tokenHash : t'.tokenHash = t.tokenHash
  /-- Its expiry. -/
  expiresAt : t'.expiresAt = t.expiresAt
  /-- When it was consumed. -/
  consumedAt : t.consumedAt ≠ none → t'.consumedAt = t.consumedAt

theorem Kept.trans {t₁ t₂ t₃ : AuthToken} (h : Kept t₁ t₂) (h' : Kept t₂ t₃) : Kept t₁ t₃ where
  userId := h'.userId.trans h.userId
  purpose := h'.purpose.trans h.purpose
  tokenHash := h'.tokenHash.trans h.tokenHash
  expiresAt := h'.expiresAt.trans h.expiresAt
  consumedAt hc := by rw [h'.consumedAt (by rwa [h.consumedAt hc]), h.consumedAt hc]

/-- The token, if there was one, is still there. -/
def Later (o o' : Option AuthToken) : Prop := ∀ t, o = some t → ∃ t', o' = some t' ∧ Kept t t'

theorem Later.refl (o : Option AuthToken) : Later o o :=
  fun t ht => ⟨t, ht, rfl, rfl, rfl, rfl, fun _ => rfl⟩

theorem Later.trans (o₁ o₂ o₃ : Option AuthToken) (h : Later o₁ o₂) (h' : Later o₂ o₃) :
    Later o₁ o₃ := by
  intro t ht
  obtain ⟨t₂, ht₂, hk₂⟩ := h t ht
  obtain ⟨t₃, ht₃, hk₃⟩ := h' t₂ ht₂
  exact ⟨t₃, ht₃, hk₂.trans hk₃⟩

theorem Later.act {o : Option AuthToken} {t : AuthToken} (h : Act o t) : Later o (some t) := by
  rintro t₀ rfl
  cases h with
  | consumed _ _ hopen => exact ⟨_, rfl, rfl, rfl, rfl, rfl, fun hclosed => absurd hopen hclosed⟩
  | guessed _ _ hopen =>
    exact ⟨_, rfl, rfl, rfl, rfl, rfl, fun hclosed => absurd hopen hclosed⟩

end AuthTokens

end Marketplace
