import Marketplace.ReadCommitted.Statements
import Marketplace.Auth.Text

/-!
# Password credentials

The rows of `password_credentials`, the statements that lock or write one, and the
account-level lockout counter they maintain.

Each row carries its own *trail*, a history variable that no statement reads: what
has been done to the credential, newest first. It is written by the statement that
does it, so a version that is never published takes its part of the trail with it.
What the stored hash and the counter are supposed to be is then a function of the
trail.
-/

namespace Marketplace

open ReadCommitted

/-- Consecutive failures before an account is locked. -/
def maxFailedAttempts : ℕ := 8

/-- How long a locked account stays locked. -/
def lockoutMinutes : ℕ := 15

/-- `make_interval(mins => LOCKOUT_MINUTES)`, in seconds. -/
def lockoutSecs : ℕ := lockoutMinutes * 60

/-- Why the failure counter is cleared. -/
inductive Clearing
  /-- The password was verified, and the verification still stands. -/
  | verified
  /-- A lock was found elapsed. -/
  | elapsed
  deriving DecidableEq

/-- What has been done to a credential, and by which request. -/
inductive CredentialEvent
  /-- The account was registered with this hash. -/
  | registered (hash : Text)
  /-- A failed attempt was recorded. -/
  | failed (who : ℕ) (now : Instant)
  /-- The failure counter was cleared. -/
  | cleared (who : ℕ) (why : Clearing) (now : Instant)
  /-- The password was changed by someone who knew it. -/
  | changed (who : ℕ) (old new : Text)
  /-- The password was reset. -/
  | reset (who : ℕ) (new : Text)
  /-- The same password was hashed again. -/
  | rehashed (who : ℕ) (old new : Text)
  deriving DecidableEq

/-- A row of `password_credentials`. -/
structure Credential where
  /-- The PHC string of the password. -/
  passwordHash : Text
  /-- Consecutive failures so far. -/
  failedAttempts : ℕ := 0
  /-- Until when the account is locked. -/
  lockedUntil : Option Instant := none
  /-- The history of the row, newest first. -/
  trail : List CredentialEvent
  deriving DecidableEq

/-- Whether the account is locked. -/
def Credential.isLockedAt (c : Credential) (now : Instant) : Bool :=
  c.lockedUntil.any fun u => now < u

/-- **The generation of the password**: how many times it has been replaced. Hashing
the same password again does not start a new one. -/
def generation : List CredentialEvent → ℕ
  | [] => 0
  | .changed _ _ _ :: es => generation es + 1
  | .reset _ _ :: es => generation es + 1
  | _ :: es => generation es

/-- The generation of the stored password. -/
def Credential.generation (c : Credential) : ℕ := Marketplace.generation c.trail

namespace Passwords

/-- **The statements that lock or write a credential.** -/
inductive Query : Type → Type 1
  /-- Read the credential and hold its row. -/
  | findForUpdate (userId : Uuid) : Query (Option Credential)
  /-- Count a failed attempt, and lock the account if it has run out of them. -/
  | recordFailure (userId : Uuid) (now : Instant) : Query (Option Credential)
  /-- Clear the failure counter. -/
  | clearFailures (userId : Uuid) (why : Clearing) (now : Instant) : Query (Option Unit)
  /-- Replace the stored hash, if it is still the expected one. -/
  | replaceHash (userId : Uuid) (expected new : Text) : Query (Option Unit)
  /-- Store a new hash of the same password, if the stored one is still the expected
  one. -/
  | upgradeHash (userId : Uuid) (expected new : Text) : Query (Option Unit)
  /-- Set the password outright. -/
  | setHash (userId : Uuid) (new : Text) : Query Unit

variable {β : Type}

/-- The row a statement is about. -/
def Query.key : Query β → Uuid
  | .findForUpdate u => u
  | .recordFailure u _ => u
  | .clearFailures u _ _ => u
  | .replaceHash u _ _ => u
  | .upgradeHash u _ _ => u
  | .setHash u _ => u

/-- **What a statement does to the latest version of its row.** -/
def Query.act (i : ℕ) : Query β → Option Credential → β × Option Credential
  | .findForUpdate _ => Table.updating fun c => some (c, c)
  | .recordFailure _ now => Table.updating fun c =>
    let c' : Credential :=
      { c with
        failedAttempts := c.failedAttempts + 1
        lockedUntil :=
          if c.failedAttempts + 1 ≥ maxFailedAttempts then some (now + lockoutSecs)
          else c.lockedUntil
        trail := .failed i now :: c.trail }
    some (c', c')
  | .clearFailures _ why now => Table.updating fun c =>
    if c.failedAttempts ≠ 0 ∨ c.lockedUntil.isSome then
      some ((), { c with
        failedAttempts := 0, lockedUntil := none, trail := .cleared i why now :: c.trail })
    else none
  | .replaceHash _ expected new => Table.updating fun c =>
    if c.passwordHash = expected then
      some ((), { c with
        passwordHash := new, failedAttempts := 0, lockedUntil := none
        trail := .changed i expected new :: c.trail })
    else none
  | .upgradeHash _ expected new => Table.updating fun c =>
    if c.passwordHash = expected then
      some ((), { c with passwordHash := new, trail := .rehashed i expected new :: c.trail })
    else none
  | .setHash _ new => fun c =>
    ((), some
      { passwordHash := new, failedAttempts := 0, lockedUntil := none
        trail := .reset i new :: (c.map Credential.trail).getD [] })

/-- The hash a statement stores, if it goes through. -/
def Query.newHash : Query β → Option Text
  | .replaceHash _ _ new => some new
  | .upgradeHash _ _ new => some new
  | .setHash _ new => some new
  | _ => none

/-- The statement replaces the password. -/
def Query.replaces : Query β → Bool
  | .replaceHash _ _ _ => true
  | .setHash _ _ => true
  | _ => false

/-! ### The step of one statement -/

/-- **What one statement of process `i` can do to a credential**, said once; the first
index is the hash it stores. -/
inductive Act (i : ℕ) : Option Text → Option Credential → Credential → Prop
  /-- The row is held. -/
  | held (c : Credential) : Act i none (some c) c
  /-- A failure is counted. -/
  | failed (c : Credential) (now : Instant) : Act i none (some c)
      { c with
        failedAttempts := c.failedAttempts + 1
        lockedUntil :=
          if c.failedAttempts + 1 ≥ maxFailedAttempts then some (now + lockoutSecs)
          else c.lockedUntil
        trail := .failed i now :: c.trail }
  /-- The counter is cleared. -/
  | cleared (c : Credential) (why : Clearing) (now : Instant) : Act i none (some c)
      { c with failedAttempts := 0, lockedUntil := none, trail := .cleared i why now :: c.trail }
  /-- The password is changed. -/
  | changed (c : Credential) (new : Text) : Act i (some new) (some c)
      { c with
        passwordHash := new, failedAttempts := 0, lockedUntil := none
        trail := .changed i c.passwordHash new :: c.trail }
  /-- The same password is hashed again. -/
  | rehashed (c : Credential) (new : Text) : Act i (some new) (some c)
      { c with passwordHash := new, trail := .rehashed i c.passwordHash new :: c.trail }
  /-- The password is reset. -/
  | reset (c : Option Credential) (new : Text) : Act i (some new) c
      { passwordHash := new, failedAttempts := 0, lockedUntil := none
        trail := .reset i new :: (c.map Credential.trail).getD [] }

theorem act_of_query {i : ℕ} {q : Query β} {o : Option Credential} {c : Credential}
    (h : (q.act i o).2 = some c) : Act i q.newHash o c := by
  cases q with
  | findForUpdate u =>
    simp only [Query.act] at h
    obtain ⟨c₀, b, rfl, hc⟩ := Table.updating_cases h
    cases hc
    exact .held c
  | recordFailure u now =>
    simp only [Query.act] at h
    obtain ⟨c₀, b, rfl, hc⟩ := Table.updating_cases h
    cases hc
    exact .failed c₀ now
  | clearFailures u why now =>
    simp only [Query.act] at h
    obtain ⟨c₀, b, rfl, hc⟩ := Table.updating_cases h
    split at hc <;> cases hc
    exact .cleared c₀ why now
  | replaceHash u expected new =>
    simp only [Query.act] at h
    obtain ⟨c₀, b, rfl, hc⟩ := Table.updating_cases h
    split at hc
    · rename_i hexp
      cases hc
      exact hexp ▸ .changed c₀ new
    · cases hc
  | upgradeHash u expected new =>
    simp only [Query.act] at h
    obtain ⟨c₀, b, rfl, hc⟩ := Table.updating_cases h
    split at hc
    · rename_i hexp
      cases hc
      exact hexp ▸ .rehashed c₀ new
    · cases hc
  | setHash u new =>
    cases h
    exact .reset o new

/-- A statement that does not replace the password leaves its generation alone. -/
theorem generation_of_query {i : ℕ} {q : Query β} (hq : q.replaces = false)
    {o : Option Credential} {c' : Credential} (h : (q.act i o).2 = some c') :
    ∃ c, o = some c ∧ c'.generation = c.generation := by
  cases q with
  | findForUpdate u =>
    simp only [Query.act] at h
    obtain ⟨c₀, b, rfl, hc⟩ := Table.updating_cases h
    cases hc
    exact ⟨c', rfl, rfl⟩
  | recordFailure u now =>
    simp only [Query.act] at h
    obtain ⟨c₀, b, rfl, hc⟩ := Table.updating_cases h
    cases hc
    exact ⟨c₀, rfl, rfl⟩
  | clearFailures u why now =>
    simp only [Query.act] at h
    obtain ⟨c₀, b, rfl, hc⟩ := Table.updating_cases h
    split at hc <;> cases hc
    exact ⟨c₀, rfl, rfl⟩
  | upgradeHash u expected new =>
    simp only [Query.act] at h
    obtain ⟨c₀, b, rfl, hc⟩ := Table.updating_cases h
    split at hc <;> cases hc
    exact ⟨c₀, rfl, rfl⟩
  | replaceHash u expected new => cases hq
  | setHash u new => cases hq

/-- A swap that went through found the expected hash. -/
theorem replaceHash_answer {i : ℕ} {userId : Uuid} {expected new : Text} {o : Option Credential}
    (h : ((Query.replaceHash userId expected new).act i o).1 ≠ none) :
    ∃ c, o = some c ∧ c.passwordHash = expected ∧
      ((Query.replaceHash userId expected new).act i o).2 = some
        { c with
          passwordHash := new, failedAttempts := 0, lockedUntil := none
          trail := .changed i expected new :: c.trail } := by
  obtain ⟨u, hu⟩ := Option.ne_none_iff_exists'.mp h
  obtain ⟨c, c', rfl, hc, hput⟩ := Table.updating_answer hu
  split at hc
  · rename_i hexp
    cases hc
    exact ⟨c, rfl, hexp, hput⟩
  · cases hc

/-- A statement only adds to the trail. -/
theorem Act.trail_suffix {i : ℕ} {w : Option Text} {c c' : Credential} (h : Act i w (some c) c') :
    c.trail <:+ c'.trail := by
  cases h with
  | held => exact List.suffix_rfl
  | failed => exact List.suffix_cons _ _
  | cleared => exact List.suffix_cons _ _
  | changed => exact List.suffix_cons _ _
  | rehashed => exact List.suffix_cons _ _
  | reset => exact List.suffix_cons _ _

end Passwords

end Marketplace
