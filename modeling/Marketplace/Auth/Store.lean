import Marketplace.ReadCommitted.RelyGuarantee
import Marketplace.Auth.Passwords
import Marketplace.Auth.AuthTokens
import Marketplace.Auth.Sessions
import Marketplace.Auth.Users

/-!
# The database of the sign-in service

The five tables together, a clock, and the queries on them: a statement on one of
the tables, or the end of a transaction. Besides the rows the store keeps a record
of the statements that spent a token or tried to, with their answers; unlike the
rows, it is not undone when a transaction is.

A query on one table leaves the others alone, which is what the inversion lemmas of
this file say (`Marketplace.Query.run_credentials` and its siblings).
-/

namespace Marketplace

open ReadCommitted

/-- A statement that spent a token, or tried to. -/
inductive Spend
  /-- A guess at a code. -/
  | guess (who : ℕ) (challengeId : Uuid) (outcome : CodeOutcome) (now : Instant)
  /-- A link, consumed. -/
  | link (who : ℕ) (id : Uuid)
  deriving DecidableEq

/-- **The database.** -/
structure Db where
  /-- The clock. -/
  clock : Instant := 0
  /-- `users`. -/
  users : Table ℕ Uuid User := .empty
  /-- `password_credentials`. -/
  credentials : Table ℕ Uuid Credential := .empty
  /-- `auth_tokens`. -/
  tokens : Table ℕ Uuid AuthToken := .empty
  /-- `sessions`. -/
  sessions : Table ℕ Uuid Session := .empty
  /-- `email_outbox`. -/
  outbox : Table ℕ Uuid Email := .empty
  /-- The tokens that were spent, newest first. -/
  spent : List Spend := []

/-- Publish what process `i` has written. -/
def Db.commit (i : ℕ) (db : Db) : Db :=
  { db with
    users := db.users.commit i
    credentials := db.credentials.commit i
    tokens := db.tokens.commit i
    sessions := db.sessions.commit i
    outbox := db.outbox.commit i }

/-- Drop what process `i` has written. -/
def Db.rollback (i : ℕ) (db : Db) : Db :=
  { db with
    users := db.users.rollback i
    credentials := db.credentials.rollback i
    tokens := db.tokens.rollback i
    sessions := db.sessions.rollback i
    outbox := db.outbox.rollback i }

/-- Time passes. -/
def Db.tick (n : ℕ) (db : Db) : Db := { db with clock := db.clock + n }

/-- **The queries of the service.** -/
inductive Query : Type → Type 1
  /-- A statement on a credential. -/
  | credentials {β : Type} (m : Mode) (q : Passwords.Query β) : Query β
  /-- A statement on a token. -/
  | tokens {β : Type} (m : Mode) (q : AuthTokens.Query β) : Query β
  /-- A statement on a session. -/
  | sessions {β : Type} (q : Sessions.Query β) : Query β
  /-- A statement on an account. -/
  | users {β : Type} (q : Users.Query β) : Query β
  /-- Queue a message. -/
  | enqueue (id : Uuid) (email : Email) : Query Bool
  /-- Commit the open transaction. -/
  | commit : Query Unit
  /-- Roll the open transaction back. -/
  | rollback : Query Unit

/-- What a statement on a token adds to the record of tokens spent. -/
def AuthTokens.Query.spends {β : Type} (i : ℕ) : AuthTokens.Query β → β → List Spend
  | .verifyCode k _ _ _ now, b => [.guess i k b now]
  | .consumeLink k _ _ _, some _ => [.link i k]
  | _, _ => []

variable (env : Env)

/-- **What a query does**, on behalf of process `i`. -/
def Query.run {β : Type} : Query β → ℕ → Db → Option (β × Db)
  | .credentials m q, i, db => (db.credentials.modify m i q.key (q.act i)).map fun p =>
    (p.1, { db with credentials := p.2 })
  | .tokens m q, i, db => (db.tokens.modify m i q.key q.act).map fun p =>
    (p.1, { db with tokens := p.2, spent := q.spends i p.1 ++ db.spent })
  | .sessions q, i, db => (db.sessions.modify .tx i q.key q.act).map fun p =>
    (p.1, { db with sessions := p.2 })
  | .users q, i, db => (q.run env i db.users).map fun p => (p.1, { db with users := p.2 })
  | .enqueue k email, i, db => (db.outbox.modify .tx i k (Table.inserting email)).map fun p =>
    (p.1, { db with outbox := p.2 })
  | .commit, i, db => some ((), db.commit i)
  | .rollback, i, db => some ((), db.rollback i)

section Inversion

variable {env} {β : Type} {i : ℕ} {m : Mode} {b : β} {db db' : Db}

theorem Query.run_credentials {q : Passwords.Query β}
    (h : Query.run env (.credentials m q) i db = some (b, db')) :
    ∃ t, db.credentials.modify m i q.key (q.act i) = some (b, t) ∧
      db' = { db with credentials := t } := by
  obtain ⟨⟨b', t⟩, ht, he⟩ := Option.map_eq_some_iff.mp h
  cases he
  exact ⟨t, ht, rfl⟩

theorem Query.run_tokens {q : AuthTokens.Query β}
    (h : Query.run env (.tokens m q) i db = some (b, db')) :
    ∃ t, db.tokens.modify m i q.key q.act = some (b, t) ∧
      db' = { db with tokens := t, spent := q.spends i b ++ db.spent } := by
  obtain ⟨⟨b', t⟩, ht, he⟩ := Option.map_eq_some_iff.mp h
  cases he
  exact ⟨t, ht, rfl⟩

theorem Query.run_sessions {q : Sessions.Query β}
    (h : Query.run env (.sessions q) i db = some (b, db')) :
    ∃ t, db.sessions.modify .tx i q.key q.act = some (b, t) ∧ db' = { db with sessions := t } := by
  obtain ⟨⟨b', t⟩, ht, he⟩ := Option.map_eq_some_iff.mp h
  cases he
  exact ⟨t, ht, rfl⟩

theorem Query.run_users {q : Users.Query β}
    (h : Query.run env (.users q) i db = some (b, db')) :
    ∃ t, q.run env i db.users = some (b, t) ∧ db' = { db with users := t } := by
  obtain ⟨⟨b', t⟩, ht, he⟩ := Option.map_eq_some_iff.mp h
  cases he
  exact ⟨t, ht, rfl⟩

theorem Query.run_enqueue {k : Uuid} {email : Email} {b : Bool}
    (h : Query.run env (.enqueue k email) i db = some (b, db')) :
    ∃ t, db.outbox.modify .tx i k (Table.inserting email) = some (b, t) ∧
      db' = { db with outbox := t } := by
  obtain ⟨⟨b', t⟩, ht, he⟩ := Option.map_eq_some_iff.mp h
  cases he
  exact ⟨t, ht, rfl⟩

theorem Query.run_commit {u : Unit} (h : Query.run env .commit i db = some (u, db')) :
    db' = db.commit i := by
  cases h
  rfl

theorem Query.run_rollback {u : Unit} (h : Query.run env .rollback i db = some (u, db')) :
    db' = db.rollback i := by
  cases h
  rfl

end Inversion

/-! ### What a query does to each table -/

section Effect

variable {env} {β : Type} {i : ℕ} {q : Query β} {b : β} {db db' : Db}

/-- The hash a query stores, if it goes through. -/
def Query.newHash : Query β → Option Text
  | .credentials _ q => q.newHash
  | _ => none

/-- **What a query does to each table.** -/
structure Query.Effects (i : ℕ) (newHash : Option Text) (db db' : Db) : Prop where
  /-- Accounts. -/
  users : Table.Effect (fun _ => Users.Act i) i db.users db'.users
  /-- Credentials. -/
  credentials :
    Table.Effect (fun _ => Passwords.Act i newHash) i db.credentials db'.credentials
  /-- Tokens. -/
  tokens : Table.Effect (fun _ => AuthTokens.Act) i db.tokens db'.tokens
  /-- Sessions. -/
  sessions : Table.Effect (fun _ => Sessions.Act) i db.sessions db'.sessions
  /-- Mail, which is only ever added. -/
  outbox : Table.Effect (fun _ o _ => o = none) i db.outbox db'.outbox
  /-- A query takes no time. -/
  clock : db'.clock = db.clock

theorem Query.effects (h : Query.run env q i db = some (b, db')) :
    Query.Effects i q.newHash db db' := by
  cases q with
  | credentials m q =>
    obtain ⟨t, ht, rfl⟩ := Query.run_credentials h
    exact ⟨.keep _, Table.effect_of_modify ht fun c hc => Passwords.act_of_query hc, .keep _,
      .keep _, .keep _, rfl⟩
  | tokens m q =>
    obtain ⟨t, ht, rfl⟩ := Query.run_tokens h
    exact ⟨.keep _, .keep _, Table.effect_of_modify ht fun t ht => AuthTokens.act_of_query ht,
      .keep _, .keep _, rfl⟩
  | sessions q =>
    obtain ⟨t, ht, rfl⟩ := Query.run_sessions h
    exact ⟨.keep _, .keep _, .keep _,
      Table.effect_of_modify ht fun s hs => Sessions.act_of_query hs, .keep _, rfl⟩
  | users q =>
    obtain ⟨t, ht, rfl⟩ := Query.run_users h
    exact ⟨Users.effect_of_query ht, .keep _, .keep _, .keep _, .keep _, rfl⟩
  | enqueue k email =>
    obtain ⟨t, ht, rfl⟩ := Query.run_enqueue h
    exact ⟨.keep _, .keep _, .keep _, .keep _,
      Table.effect_of_modify ht fun e he => (Table.inserting_cases he).1, rfl⟩
  | commit =>
    obtain rfl := Query.run_commit h
    exact ⟨.commit _, .commit _, .commit _, .commit _, .commit _, rfl⟩
  | rollback =>
    obtain rfl := Query.run_rollback h
    exact ⟨.rollback _, .rollback _, .rollback _, .rollback _, .rollback _, rfl⟩

/-- The queries that leave the credentials alone. -/
def Query.sparesCredentials {β : Type} : Query β → Bool
  | .credentials _ _ => false
  | .commit => false
  | .rollback => false
  | _ => true

theorem Query.credentials_of_spares (hq : q.sparesCredentials = true)
    (h : Query.run env q i db = some (b, db')) :
    db'.credentials = db.credentials := by
  cases q with
  | credentials m q => cases hq
  | tokens m q =>
    obtain ⟨t, -, rfl⟩ := Query.run_tokens h
    rfl
  | sessions q =>
    obtain ⟨t, -, rfl⟩ := Query.run_sessions h
    rfl
  | users q =>
    obtain ⟨t, -, rfl⟩ := Query.run_users h
    rfl
  | enqueue k email =>
    obtain ⟨t, -, rfl⟩ := Query.run_enqueue h
    rfl
  | commit => cases hq
  | rollback => cases hq

end Effect

end Marketplace
