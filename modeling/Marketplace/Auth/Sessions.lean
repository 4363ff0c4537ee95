import Marketplace.ReadCommitted.Statements
import Marketplace.Auth.Text

/-!
# Sessions

The rows of `sessions` and the statements that write one. A session is live until it
is revoked or has expired; both are judged when its token is presented, so nothing
ever deletes a row.

Each row also carries which password its sign-in was authorised by, a history
variable that no statement reads.
-/

namespace Marketplace

open ReadCommitted

/-- Why a session was ended. -/
inductive RevocationReason
  /-- Its owner signed out. -/
  | logout
  /-- Its owner signed out everywhere. -/
  | logoutAll
  /-- The password was replaced. -/
  | passwordChange
  /-- A new session replaced it. -/
  | rotation
  deriving DecidableEq

/-- A row of `sessions`. -/
structure Session where
  /-- The account. -/
  userId : Uuid
  /-- The digest of the session's token. -/
  tokenHash : Digest
  /-- When it dies of disuse. -/
  idleExpiresAt : Instant
  /-- When it dies of age. -/
  absoluteExpiresAt : Instant
  /-- When it was last used, as far as that was written down. -/
  lastSeenAt : Instant
  /-- When it was revoked, and why. -/
  revoked : Option (Instant × RevocationReason) := none
  /-- The generation of the password that authorised the sign-in. -/
  authorisedBy : Option ℕ := none
  deriving DecidableEq

/-- The session authenticates whoever presents its token. -/
def Session.live (s : Session) (now : Instant) : Bool :=
  s.revoked.isNone && decide (now < s.idleExpiresAt) && decide (now < s.absoluteExpiresAt)

namespace Sessions

/-- **The statements that write a session.** -/
inductive Query : Type → Type 1
  /-- Insert a session. -/
  | insert (id : Uuid) (session : Session) : Query Bool
  /-- Revoke one session. -/
  | revoke (id : Uuid) (reason : RevocationReason) (now : Instant) : Query (Option Unit)
  /-- Revoke a session as one of those of an account, unless it is the one spared. -/
  | revokeOf (id userId : Uuid) (reason : RevocationReason) (except : Option Uuid)
      (now : Instant) : Query (Option Unit)

variable {β : Type}

/-- The row a statement is about. -/
def Query.key : Query β → Uuid
  | .insert k _ => k
  | .revoke k _ _ => k
  | .revokeOf k _ _ _ _ => k

/-- **What a statement does to the latest version of its row.** -/
def Query.act : Query β → Option Session → β × Option Session
  | .insert _ session => Table.inserting session
  | .revoke _ reason now => Table.updating fun s =>
    if s.revoked = none then some ((), { s with revoked := some (now, reason) }) else none
  | .revokeOf k userId reason except now => Table.updating fun s =>
    if s.userId = userId ∧ s.revoked = none ∧ except ≠ some k then
      some ((), { s with revoked := some (now, reason) })
    else none

/-- The statement inserts a session. -/
def Query.inserts : Query β → Bool
  | .insert _ _ => true
  | _ => false

/-- **What one statement can do to a session**, said once. -/
inductive Act : Option Session → Session → Prop
  /-- A session is inserted. -/
  | inserted (s : Session) : Act none s
  /-- A session is revoked. -/
  | revoked (s : Session) (reason : RevocationReason) (now : Instant) (h : s.revoked = none) :
      Act (some s) { s with revoked := some (now, reason) }

theorem act_of_query {q : Query β} {o : Option Session} {s : Session}
    (h : (q.act o).2 = some s) : Act o s := by
  cases q with
  | insert k session =>
    obtain ⟨rfl, rfl⟩ := Table.inserting_cases h
    exact .inserted s
  | revoke k reason now =>
    simp only [Query.act] at h
    obtain ⟨s₀, b, rfl, hs⟩ := Table.updating_cases h
    split at hs
    · rename_i hlive
      cases hs
      exact .revoked s₀ reason now hlive
    · cases hs
  | revokeOf k userId reason except now =>
    simp only [Query.act] at h
    obtain ⟨s₀, b, rfl, hs⟩ := Table.updating_cases h
    split at hs
    · rename_i hlive
      cases hs
      exact .revoked s₀ reason now hlive.2.1
    · cases hs

/-- A statement that inserts nothing only revokes. -/
theorem revoked_of_query {q : Query β} (hq : q.inserts = false) {o : Option Session} {s : Session}
    (h : (q.act o).2 = some s) : s.revoked ≠ none := by
  cases q with
  | insert k session => cases hq
  | revoke k reason now =>
    simp only [Query.act] at h
    obtain ⟨s₀, b, rfl, hs⟩ := Table.updating_cases h
    split at hs <;> cases hs
    nofun
  | revokeOf k userId reason except now =>
    simp only [Query.act] at h
    obtain ⟨s₀, b, rfl, hs⟩ := Table.updating_cases h
    split at hs <;> cases hs
    nofun

end Sessions

end Marketplace
