import Marketplace.ReadCommitted.Statements
import Marketplace.Auth.Text

/-!
# Accounts, and the mail they are sent

The rows of `users` and the statements that write one, and the rows of
`email_outbox`. An address belongs to at most one account: a unique index on the
normalised address arbitrates, at the write, between those who claim it
(`Marketplace.Users.updateEmail`). Like any unique index it makes a writer wait
while the address is part of a version that is not published yet.

The row of an account also carries which request last recorded a proof of its address, and
which federated identity the account was created for: history variables that no statement
reads.
-/

namespace Marketplace

open ReadCommitted

/-- Account lifecycle. -/
inductive UserStatus
  /-- The account is in use. -/
  | active
  /-- The account was suspended. -/
  | suspended
  /-- The account was deleted. -/
  | deleted
  deriving DecidableEq

/-- Only an active account may authenticate. -/
def UserStatus.canAuthenticate : UserStatus → Bool
  | .active => true
  | _ => false

/-- Which side of the marketplace an account is on. -/
inductive AccountType
  | homeowner
  | contractor
  deriving DecidableEq

/-- Who vouches for a federated identity. -/
inductive Provider
  | google
  | facebook
  deriving DecidableEq

/-- A row of `users`. -/
structure User where
  /-- The address, if the account has one. -/
  email : Option Text
  /-- What to call the person. -/
  displayName : Text
  /-- Chosen once, at registration. -/
  accountType : AccountType
  /-- Whether the account is in use. -/
  status : UserStatus := .active
  /-- When the address was proved. -/
  emailVerifiedAt : Option Instant := none
  /-- The request that recorded the proof. -/
  provedBy : Option ℕ := none
  /-- The identity that the account was created for. -/
  firstIdentity : Option (Provider × Text) := none
  deriving DecidableEq

namespace Users

variable (env : Env)

/-- The row's normalised address is `norm`. -/
def hasNorm (norm : Text) (u : User) : Bool :=
  u.email.any fun email => env.emailNorm email = norm

/-- Another row that somebody is writing has the normalised address, before or after
the write. -/
def normPending (i : ℕ) (userId : Uuid) (norm : Text) (t : Table ℕ Uuid User) : Bool :=
  t.keys.any fun k => k ≠ userId && !(t.slot k).freeFor i &&
    ((t.slot k).committed.any (hasNorm env norm) ||
      (t.slot k).lock.any fun l => l.2.any (hasNorm env norm))

/-- Another row has the normalised address. -/
def normTaken (i : ℕ) (userId : Uuid) (norm : Text) (t : Table ℕ Uuid User) : Bool :=
  t.keys.any fun k => k ≠ userId && (t.row i k).any (hasNorm env norm)

/-- **Set a proved address on an account.** The unique index on the normalised
address and the checks of the column are part of the statement. -/
def updateEmail (i : ℕ) (userId : Uuid) (email : Text) (now : Instant)
    (t : Table ℕ Uuid User) : Option (Except AppError User × Table ℕ Uuid User) :=
  if !emailCheck email then some (.error (.internal "check constraint"), t)
  else if normPending env i userId (env.emailNorm email) t then none
  else if normTaken env i userId (env.emailNorm email) t then
    some (.error (.conflict "That email address is already registered."), t)
  else
    t.modify .tx i userId fun
      | some u =>
        let u' := { u with email := some email, emailVerifiedAt := some now, provedBy := some i }
        (.ok u', some u')
      | none => (.error (.internal "row not found"), none)

/-- The statements that write an account. -/
inductive Query : Type → Type 1
  /-- Record that the account's address is verified. -/
  | markEmailVerified (userId : Uuid) (now : Instant) : Query (Option Unit)
  /-- Set a proved address. -/
  | updateEmail (userId : Uuid) (email : Text) (now : Instant) : Query (Except AppError User)

variable {β : Type}

/-- What a statement does to the accounts. -/
def Query.run (i : ℕ) : Query β → Table ℕ Uuid User → Option (β × Table ℕ Uuid User)
  | .markEmailVerified userId now, t => t.modify .tx i userId <| Table.updating fun u =>
    if u.emailVerifiedAt = none then
      some ((), { u with emailVerifiedAt := some now, provedBy := some i })
    else none
  | .updateEmail userId email now, t => Users.updateEmail env i userId email now t

/-- **What one statement can do to an account**, said once. -/
inductive Act (i : ℕ) : Option User → User → Prop
  /-- The address on file is proved. -/
  | marked (u : User) (now : Instant) (h : u.emailVerifiedAt = none) :
      Act i (some u) { u with emailVerifiedAt := some now, provedBy := some i }
  /-- Another address is proved. -/
  | addressed (u : User) (email : Text) (now : Instant) :
      Act i (some u)
        { u with email := some email, emailVerifiedAt := some now, provedBy := some i }

variable {env} {i : ℕ} {t t' : Table ℕ Uuid User} {b : β}

theorem Act.provedBy {o : Option User} {u : User} (h : Act i o u) : u.provedBy = some i := by
  cases h <;> rfl

/-- **What setting an address can have done**: nothing, or put the row with it. -/
theorem updateEmail_cases {userId : Uuid} {email : Text} {now : Instant}
    {b : Except AppError User} (h : updateEmail env i userId email now t = some (b, t')) :
    (∃ e, b = .error e) ∧ t' = t ∨
      ∃ u, t.row i userId = some u ∧ (t.slot userId).freeFor i = true ∧
        b = .ok { u with email := some email, emailVerifiedAt := some now, provedBy := some i } ∧
        t' = t.put userId ((t.slot userId).put .tx i
          { u with email := some email, emailVerifiedAt := some now, provedBy := some i }) := by
  rw [updateEmail] at h
  split_ifs at h
  · cases h
    exact Or.inl ⟨⟨_, rfl⟩, rfl⟩
  · cases h
    exact Or.inl ⟨⟨_, rfl⟩, rfl⟩
  · obtain ⟨hfree, hb, hput⟩ := Table.modify_cases h
    rcases hu : t.row i userId with _ | u
    · simp only [hu] at hb hput
      rcases hput with ⟨-, rfl⟩ | ⟨r, hr, -⟩
      · exact Or.inl ⟨⟨_, hb⟩, rfl⟩
      · cases hr
    · simp only [hu] at hb hput
      rcases hput with ⟨hnone, -⟩ | ⟨r, hr, rfl⟩
      · cases hnone
      · cases hr
        exact Or.inr ⟨u, rfl, hfree, hb, rfl⟩

theorem effect_of_query {q : Query β} (h : q.run env i t = some (b, t')) :
    Table.Effect (fun _ => Act i) i t t' := by
  cases q with
  | markEmailVerified userId now =>
    refine Table.effect_of_modify h fun r hr => ?_
    obtain ⟨u, b, hu, hc⟩ := Table.updating_cases hr
    rw [hu]
    split at hc
    · rename_i hnone
      cases hc
      exact .marked u now hnone
    · cases hc
  | updateEmail userId email now =>
    rcases updateEmail_cases h with ⟨-, rfl⟩ | ⟨u, hu, hfree, -, rfl⟩
    · exact .keep _
    · refine .put .tx hfree ?_
      rw [hu]
      exact .addressed u email now

variable (env)

/-- The first account, in the order of the table, whose normalised address is that of
`email`, as process `i` sees it. -/
def findByEmail (i : ℕ) (email : Text) (t : Table ℕ Uuid User) : Option (Uuid × User) :=
  (t.keys.findSome? fun k => match t.row i k with
    | some u => if hasNorm env (env.emailNorm email) u then some (k, u) else none
    | none => none)

end Users

/-! ### The outbox -/

/-- What a message says. -/
inductive Mail
  /-- A sign-in code. -/
  | loginCode (code : Text)
  /-- The code that proves an address. -/
  | emailVerify (code : Text)
  /-- A reset link, by its token. -/
  | passwordReset (token : Text)
  deriving DecidableEq

/-- A row of `email_outbox`. -/
structure Email where
  /-- The account the message is about. -/
  userId : Uuid
  /-- Where it goes. -/
  recipient : Text
  /-- What it says. -/
  mail : Mail
  deriving DecidableEq

end Marketplace
