import Marketplace.Auth.Service
import Marketplace.ReadCommitted.Answers
import Marketplace.ReadCommitted.Unique

/-!
# Accounts, sessions in use, and federated identities

The sign-in service, and around it the requests that it is there for: a session that is
presented with every request (`Marketplace.Accounts.authenticate`), registration, and signing in
with an identity that somebody else vouches for. The store is that of the service with one more
table, and the programs of the service are those of `Marketplace.serve`, embedded.

Whether a session is live is judged by one statement, and its idle window is extended by another
one, with a condition of its own. An account is found by provider and subject, under a unique
index, and by nothing else.

What a provider vouches for is a parameter: the answer of the verifier to a process, which asks
it once. An identity also carries which account asked for it to be linked, a history variable.
-/

namespace Marketplace

open ReadCommitted

/-- Authorization roles. -/
inductive Role
  | homeowner
  | contractor
  | moderator
  | admin
  deriving DecidableEq

/-- The guard of `touch`: the session is not revoked, and was last seen long enough ago. -/
def Session.touchable (minIntervalSecs : ℕ) (now : Instant) (s : Session) : Bool :=
  s.revoked.isNone && decide (s.lastSeenAt + minIntervalSecs < now)

/-- The session, with its idle window extended as far as its age allows. -/
def Session.touched (idleExpiresAt now : Instant) (s : Session) : Session :=
  { s with idleExpiresAt := min idleExpiresAt s.absoluteExpiresAt, lastSeenAt := now }

/-- `Provider::display_name`. -/
def Provider.displayName : Provider → String
  | .google => "Google"
  | .facebook => "Facebook"

/-- What a verified token says. -/
structure VerifiedIdentity where
  /-- The provider's own account id. -/
  providerSubject : Text
  /-- Firebase's id, which is never matched on. -/
  firebaseUid : Text
  email : Option Text
  /-- Whether the address came from the identities map. -/
  emailFromIdentities : Bool
  emailVerified : Bool
  name : Option Text
  deriving DecidableEq

/-- A row of `oauth_identities`. -/
structure OauthIdentity where
  userId : Uuid
  provider : Provider
  subject : Text
  firebaseUid : Option Text
  emailAtLink : Option Text
  emailVerifiedAtLink : Bool
  lastLoginAt : Option Instant
  /-- The account that asked for the link; nobody did when the account was made for it. -/
  linkedBy : Option Uuid
  deriving DecidableEq

namespace OauthIdentity

/-- What the identity is known by. -/
def key (identity : OauthIdentity) : Provider × Text := (identity.provider, identity.subject)

/-- The `CHECK` constraints of the table. -/
def check (identity : OauthIdentity) : Bool :=
  identity.subject.any (· ≠ ' ') && identity.subject.length ≤ 255 &&
    identity.firebaseUid.all (fun uid => uid.length ≤ 128) &&
    identity.emailAtLink.all fun email => email.length ≤ 254

/-- Two identities that the unique indexes do not let stand beside one another. -/
def clashes (identity other : OauthIdentity) : Bool :=
  identity.key = other.key || identity.userId = other.userId && identity.provider = other.provider

end OauthIdentity

/-- The `CHECK` constraints on the columns that a new account is given. -/
def User.check (u : User) : Bool :=
  u.email.all emailCheck && u.displayName.any (· ≠ ' ') && u.displayName.length ≤ 120

namespace Accounts

/-! ### The store -/

/-- **The database**: that of the sign-in service, and the federated identities. -/
structure Db where
  /-- The tables of the service. -/
  auth : Marketplace.Db := {}
  /-- `oauth_identities`. -/
  identities : Table ℕ Uuid OauthIdentity := .empty

/-- **The queries.** -/
inductive Query : Type → Type 1
  /-- A query of the sign-in service. -/
  | service {β : Type} (q : Marketplace.Query β) : Query β
  /-- Extend the idle window of a session. -/
  | touch (sessionId : Uuid) (idleExpiresAt : Instant) (minIntervalSecs : ℕ) (now : Instant) :
      Query (Option Unit)
  /-- Insert an account. -/
  | insertUser (user : User) : Query (Except AppError Uuid)
  /-- Insert a credential. -/
  | insertCredential (userId : Uuid) (passwordHash : Text) : Query Bool
  /-- Insert an identity. -/
  | insertIdentity (identity : OauthIdentity) : Query (Except AppError Uuid)
  /-- Record that an identity was used. -/
  | touchLogin (id : Uuid) (now : Instant) : Query (Option Unit)

variable (env : Env)

/-- Another account with the address of this one. -/
def emailTaken (user other : User) : Bool :=
  user.email.any fun email => Users.hasNorm env (env.emailNorm email) other

/-- What a violated unique index on identities is reported as, as process `i` sees it. -/
def identityConflict (i : ℕ) (identity : OauthIdentity) (t : Table ℕ Uuid OauthIdentity) :
    AppError :=
  if t.keys.any fun k => (t.row i k).any fun other => identity.key = other.key then
    .conflict "That identity is already linked to an account."
  else .conflict "This account already has an identity with that provider."

/-- What the end of a transaction does to the identities. -/
def ending {β : Type} : Marketplace.Query β → ℕ → Table ℕ Uuid OauthIdentity →
    Table ℕ Uuid OauthIdentity
  | .commit, i, t => t.commit i
  | .rollback, i, t => t.rollback i
  | _, _, t => t

/-- **What a query does**, on behalf of process `i`. -/
def Query.run {β : Type} : Query β → ℕ → Db → Option (β × Db)
  | .service q, i, db => (q.run env i db.auth).map fun p =>
    (p.1, { auth := p.2, identities := ending q i db.identities })
  | .touch k idleExpiresAt minIntervalSecs now, i, db =>
    (db.auth.sessions.modify .auto i k (Table.updating fun s =>
      if s.touchable minIntervalSecs now then some ((), s.touched idleExpiresAt now) else none)).map
      fun p => (p.1, { db with auth := { db.auth with sessions := p.2 } })
  | .insertUser user, i, db =>
    if user.check then
      (db.auth.users.insertFresh .tx i (emailTaken env user) user).map fun p =>
        (match p.1 with
          | some id => .ok id
          | none => .error (.conflict "That email address is already registered."),
          { db with auth := { db.auth with users := p.2 } })
    else some (.error (.internal "check constraint"), db)
  | .insertCredential userId passwordHash, i, db =>
    (db.auth.credentials.modify .tx i userId
      (Table.inserting { passwordHash := passwordHash, trail := [.registered passwordHash] })).map
      fun p => (p.1, { db with auth := { db.auth with credentials := p.2 } })
  | .insertIdentity identity, i, db =>
    if !identity.check then some (.error (.internal "check constraint"), db)
    else if (db.auth.users.row i identity.userId).isNone then
      some (.error (.internal "foreign key"), db)
    else
      (db.identities.insertFresh .tx i identity.clashes identity).map fun p =>
        (match p.1 with
          | some id => .ok id
          | none => .error (identityConflict i identity db.identities),
          { db with identities := p.2 })
  | .touchLogin k now, i, db =>
    (db.identities.modify .tx i k
      (Table.updating fun identity => some ((), { identity with lastLoginAt := some now }))).map
      fun p => (p.1, { db with identities := p.2 })

/-! ### Statements -/

/-- A program around the sign-in service. -/
abbrev Acting (α : Type) : Type 1 := Action ℕ Db Query AppError α

variable {α : Type}

/-- A program of the sign-in service. -/
def ofService (p : Serving α) : Acting α := Prog.embed Db.auth .service p.run

/-- The current instant. -/
def clock : Acting Instant := .look fun _ db => db.auth.clock

/-- `pool.begin()` … `tx.commit()`, where the body knows the transaction's `now()`. -/
def inTransaction (body : Instant → Acting α) : Acting α := do
  let now ← clock
  Action.transaction (.service .commit) (.service .rollback) (body now)

/-- `sessions::find_live`. -/
def findLive (tokenHash : Digest) : Acting (Option (Uuid × Session)) :=
  .look fun j db =>
    (db.auth.sessions.scan j fun _ s => s.tokenHash = tokenHash && s.live db.auth.clock).head?.bind
      fun k => (db.auth.sessions.row j k).map fun s => (k, s)

/-- `sessions::touch`. -/
def touch (sessionId : Uuid) (idleExpiresAt : Instant) (minIntervalSecs : ℕ) : Acting Unit := do
  let now ← clock
  let hit ← Action.look fun j db =>
    (db.auth.sessions.row j sessionId).any (Session.touchable minIntervalSecs now)
  if hit then
    let _ ← Action.query (.touch sessionId idleExpiresAt minIntervalSecs now)
    pure ()
  else pure ()

/-- `users::find_by_id`. -/
def findUserById (userId : Uuid) : Acting (Option User) :=
  .look fun j db => db.auth.users.row j userId

/-- `users::insert`. -/
def insertUser (email : Option Text) (displayName : Text) (accountType : AccountType)
    (firstIdentity : Option (Provider × Text)) : Acting (Uuid × User) := do
  let user : User :=
    { email := email, displayName := displayName, accountType := accountType
      firstIdentity := firstIdentity }
  let inserted ← Action.query (.insertUser user)
  match inserted with
  | .ok id => pure (id, user)
  | .error e => throw e

/-- `passwords::insert`. -/
def insertCredential (userId : Uuid) (passwordHash : Text) : Acting Unit := do
  let inserted ← Action.query (.insertCredential userId passwordHash)
  if inserted then pure () else throw (.internal "duplicate key")

/-- `oauth::find_by_subject`. -/
def findBySubject (provider : Provider) (subject : Text) : Acting (Option (Uuid × OauthIdentity)) :=
  .look fun j db =>
    (db.identities.scan j fun _ identity =>
      identity.provider = provider && identity.subject = subject).head?.bind
      fun k => (db.identities.row j k).map fun identity => (k, identity)

/-- `oauth::exists_for_user`. -/
def existsForUser (userId : Uuid) (provider : Provider) : Acting Bool :=
  .look fun j db => !(db.identities.scan j fun _ identity =>
    identity.userId = userId && identity.provider = provider).isEmpty

/-- `oauth::insert`. -/
def insertIdentity (userId : Uuid) (provider : Provider) (identity : VerifiedIdentity)
    (linkedBy : Option Uuid) (now : Instant) : Acting Unit := do
  let inserted ← Action.query (.insertIdentity
    { userId := userId
      provider := provider
      subject := identity.providerSubject
      firebaseUid := some identity.firebaseUid
      emailAtLink := identity.email
      emailVerifiedAtLink := identity.emailVerified
      lastLoginAt := some now
      linkedBy := linkedBy })
  match inserted with
  | .ok _ => pure ()
  | .error e => throw e

/-! ### Requests -/

/-- Who is behind a request. -/
structure Authenticated where
  csrfToken : Text
  sessionId : Uuid
  sessionExpiresAt : Instant
  userId : Uuid
  user : User
  roles : List Role
  deriving DecidableEq

/-- What a request is answered with. -/
inductive Response
  /-- As the sign-in service answers. -/
  | service (response : Marketplace.Response)
  /-- The session that was presented is live. -/
  | authenticated (who : Authenticated)
  /-- The identity has been linked. -/
  | linked
  deriving DecidableEq

/-- **The surroundings**: those of the sign-in service, the roles, which no request here writes,
and what a process is told of a token. -/
structure Surroundings extends Env where
  /-- `users::roles`. -/
  roles : Uuid → List Role
  /-- `FirebaseVerifier::verify`, as it answers process `i`. -/
  verifyToken : ℕ → Text → Provider → Except AppError VerifiedIdentity

/-- How much disuse is not worth writing down. -/
def touchIntervalSecs : ℕ := 60

variable (env : Surroundings) (i : ℕ)

/-- **Resolve a raw session token to a live session.** -/
def authenticate (rawToken : Text) : Acting Response := do
  let found ← findLive (env.digestToken rawToken)
  match found with
  | none => throw .unauthenticated
  | some (sessionId, session) => do
    let user ← findUserById session.userId
    match user with
    | none => throw .unauthenticated
    | some user =>
      if !user.status.canAuthenticate then throw .unauthenticated
      else do
        let now ← clock
        touch sessionId (now + env.sessionIdle) touchIntervalSecs
        pure (.authenticated
          { csrfToken := env.peppered "csrf".toList (env.formatUuid sessionId)
            sessionId := sessionId
            sessionExpiresAt := session.absoluteExpiresAt
            userId := session.userId
            user := user
            roles := env.roles session.userId })

/-- **Register with a password.** -/
def register (email displayName password : Text) (accountType : AccountType) :
    Acting Response := do
  let email := trim email
  let displayName := trim displayName
  if displayName.isEmpty then throw (.invalid "A display name is required.")
  else if !looksLikeEmail email then throw (.invalid "Enter a valid email address.")
  else match checkPolicy env.toEnv password email with
    | some refusal => throw refusal
    | none =>
      let passwordHash := env.hash i password
      inTransaction fun begun => do
        let (userId, _) ← insertUser (some email) displayName accountType none
        insertCredential userId passwordHash
        let challenge ← ofService (issueChallenge env.toEnv i userId email none begun)
        pure (.service (.challenged challenge userId))

/-- Where an account's address comes from: the token, or else what the browser forwards. -/
def arrivalEmail (identity : VerifiedIdentity) (clientEmail : Option Text) : Option Text :=
  identity.email <|> (clientEmail.map trim).filter looksLikeEmail

/-- `split('@').next()`. -/
def localPart (address : Text) : Text := address.takeWhile (· ≠ '@')

/-- What to call a person who arrives. -/
def arrivalName (provider : Provider) (identity : VerifiedIdentity) (email : Option Text)
    (clientDisplayName : Option Text) : Text :=
  let name := identity.name <|> (clientDisplayName.map trim).filter fun name => !name.isEmpty
  (name.getD (match email with
    | some address => localPart address
    | none => (provider.displayName ++ " user").toList)).take 120

/-- What somebody is told who arrives without having chosen a side. -/
def chooseASide (provider : Provider) : AppError :=
  .invalid ("No account here yet uses that " ++ provider.displayName ++ " sign-in. Create an " ++
    "account first and choose whether you are a homeowner or a contractor — it cannot be " ++
    "changed later.")

/-- `users::insert`, where a taken address is reported as an account to sign in to. -/
def insertArrival (email : Option Text) (displayName : Text) (accountType : AccountType)
    (firstIdentity : Provider × Text) : Acting (Uuid × User) :=
  Prog.bind (insertUser email displayName accountType (some firstIdentity)).run fun
    | .ok user => .ret (.ok user)
    | .error (.conflict _) => .ret (.error (.conflict
        "An account already uses that email address. Sign in to that account instead."))
    | .error e => .ret (.error e)

/-- An identity that is known: its account. -/
def resume (id : Uuid) (link : OauthIdentity) (now : Instant) : Acting (Uuid × User) := do
  let user ← findUserById link.userId
  match user with
  | none => throw .unauthenticated
  | some user =>
    if !user.status.canAuthenticate then throw .unauthenticated
    else do
      let _ ← Action.query (.touchLogin id now)
      pure (link.userId, user)

/-- An identity that is not known: a new account for it. -/
def arrive (provider : Provider) (identity : VerifiedIdentity)
    (intendedAccountType : Option AccountType) (clientEmail clientDisplayName : Option Text)
    (now : Instant) : Acting (Uuid × User) := do
  let email := arrivalEmail identity clientEmail
  let displayName := arrivalName provider identity email clientDisplayName
  match intendedAccountType with
  | none => throw (chooseASide provider)
  | some accountType => do
    let (userId, user) ← insertArrival (email.map trim) displayName accountType
      (provider, identity.providerSubject)
    insertIdentity userId provider identity none now
    pure (userId, user)

/-- The provider has verified the address of this very account. -/
def vouchesFor (identity : VerifiedIdentity) (user : User) : Bool :=
  identity.emailVerified && identity.email.any fun claimed =>
    user.email.any fun own => eqIgnoreAsciiCase (trim claimed) (trim own)

/-- The account of an identity, made for it when there is none. -/
def resolve (provider : Provider) (identity : VerifiedIdentity)
    (intendedAccountType : Option AccountType) (clientEmail clientDisplayName : Option Text)
    (now : Instant) : Acting (Uuid × User) := do
  let existing ← findBySubject provider identity.providerSubject
  match existing with
  | some (id, link) => resume id link now
  | none => arrive provider identity intendedAccountType clientEmail clientDisplayName now

/-- Record what the provider has verified, if it is about this account. -/
def markVouched (identity : VerifiedIdentity) (userId : Uuid) (user : User) (now : Instant) :
    Acting Unit :=
  if vouchesFor identity user then ofService (markEmailVerified userId now) else pure ()

/-- What the verifier has to say of a token. -/
def verified (provider : Provider) (idToken : Text) : Acting VerifiedIdentity :=
  match env.verifyToken i idToken provider with
  | .ok identity => pure identity
  | .error e => throw e

/-- **Sign in with a federated provider**, registering on first arrival. -/
def signInWithProvider (provider : Provider) (idToken : Text)
    (intendedAccountType : Option AccountType) (clientEmail clientDisplayName : Option Text) :
    Acting Response := do
  let now ← clock
  let identity ← verified env i provider idToken
  inTransaction fun begun => do
    let (userId, user) ← resolve provider identity intendedAccountType clientEmail
      clientDisplayName begun
    markVouched identity userId user begun
    let session ← ofService (issueSession env.toEnv i userId begun now none)
    pure (.service (.signedIn userId session))

/-- **Attach a provider identity to the account that is signed in.** -/
def linkProvider (userId : Uuid) (provider : Provider) (idToken : Text) : Acting Response := do
  let identity ← verified env i provider idToken
  inTransaction fun begun => do
    let already ← existsForUser userId provider
    if already then throw (.conflict
      ("This account already has a " ++ provider.displayName ++ " identity linked."))
    else do
      let existing ← findBySubject provider identity.providerSubject
      match existing with
      | some _ => throw (.conflict
          ("That " ++ provider.displayName ++ " account is already linked to another account."))
      | none => do
        insertIdentity userId provider identity (some userId) begun
        pure .linked

/-! ### The system -/

/-- A request. -/
inductive Request
  /-- A request of the sign-in service. -/
  | service (request : Marketplace.Request)
  /-- Present a session. -/
  | authenticate (rawToken : Text)
  /-- Register with a password. -/
  | register (email displayName password : Text) (accountType : AccountType)
  /-- Sign in with a provider. -/
  | signInWithProvider (provider : Provider) (idToken : Text)
      (intendedAccountType : Option AccountType) (clientEmail clientDisplayName : Option Text)
  /-- Link an identity to an account that is signed in. -/
  | linkProvider (userId : Uuid) (provider : Provider) (idToken : Text)
  deriving DecidableEq

/-- A request of the sign-in service. -/
def serveService (request : Marketplace.Request) : Acting Response := do
  let response ← ofService (Marketplace.serve env.toEnv i request)
  pure (.service response)

/-- The program of a request. -/
def serve : Request → Acting Response
  | .service request => serveService env i request
  | .authenticate rawToken => authenticate env rawToken
  | .register email displayName password accountType =>
    register env i email displayName password accountType
  | .signInWithProvider provider idToken intendedAccountType clientEmail clientDisplayName =>
    signInWithProvider env i provider idToken intendedAccountType clientEmail clientDisplayName
  | .linkProvider userId provider idToken => linkProvider env i userId provider idToken

/-- **The accounts**, as a system. -/
def accounts : System ℕ Db Request (Except AppError Response) Query where
  run := Query.run env.toEnv
  rollback := .service .rollback
  tick := fun n db => { db with auth := db.auth.tick n }
  program := fun i r => (serve env i r).run

theorem accounts_run {β : Type} {q : Query β} {db : Db} :
    (accounts env).run q i db = q.run env.toEnv i db :=
  rfl

/-! ### What a query does -/

section Inversion

variable {env : Env} {i : ℕ} {β : Type} {b : β} {db db' : Db}

theorem run_service {q : Marketplace.Query β} (h : (Query.service q).run env i db = some (b, db')) :
    ∃ auth, q.run env i db.auth = some (b, auth) ∧
      db' = { auth := auth, identities := ending q i db.identities } := by
  obtain ⟨⟨b', auth⟩, hq, he⟩ := Option.map_eq_some_iff.mp h
  cases he
  exact ⟨auth, hq, rfl⟩

/-- Extending a session either does nothing, or extends one that nobody holds. -/
theorem run_touch {k : Uuid} {idle : Instant} {secs : ℕ} {now : Instant} {b : Option Unit}
    (h : (Query.touch k idle secs now).run env i db = some (b, db')) :
    db' = db ∨ ∃ s, db.auth.sessions.slot k = ⟨some s, none⟩ ∧ s.touchable secs now = true ∧
      db' = { db with auth := { db.auth with
        sessions := db.auth.sessions.put k ⟨some (s.touched idle now), none⟩ } } := by
  obtain ⟨⟨b', t⟩, ht, he⟩ := Option.map_eq_some_iff.mp h
  cases he
  have hnone := Table.unlocked_of_auto ht
  obtain ⟨-, -, ⟨-, rfl⟩ | ⟨s', hs', rfl⟩⟩ := Table.modify_cases ht
  · exact Or.inl rfl
  · obtain ⟨s, u, hrow, hs⟩ := Table.updating_cases hs'
    rw [Table.row, Slot.visible_of_unlocked hnone] at hrow
    split at hs
    · rename_i hpass
      cases hs
      exact Or.inr ⟨s, Slot.ext hrow hnone, hpass, rfl⟩
    · cases hs

/-- Inserting an account either does nothing, or puts it under a new identifier. -/
theorem run_insertUser {user : User} {b : Except AppError Uuid}
    (h : (Query.insertUser user).run env i db = some (b, db')) :
    (∃ e, b = .error e) ∧ db' = db ∨
      b = .ok db.auth.users.fresh ∧ db' = { db with auth := { db.auth with
        users := db.auth.users.put db.auth.users.fresh (Slot.put .tx i user {}) } } := by
  simp only [Query.run] at h
  split at h
  · obtain ⟨⟨o, t⟩, ht, he⟩ := Option.map_eq_some_iff.mp h
    obtain ⟨-, ⟨rfl, rfl⟩ | ⟨rfl, rfl, -⟩⟩ := Table.insertFresh_cases ht
    · cases he
      exact Or.inl ⟨⟨_, rfl⟩, rfl⟩
    · cases he
      exact Or.inr ⟨rfl, rfl⟩
  · cases h
    exact Or.inl ⟨⟨_, rfl⟩, rfl⟩

theorem run_insertCredential {k : Uuid} {hash : Text} {b : Bool}
    (h : (Query.insertCredential k hash).run env i db = some (b, db')) :
    ∃ t, db' = { db with auth := { db.auth with credentials := t } } := by
  obtain ⟨⟨b', t⟩, -, he⟩ := Option.map_eq_some_iff.mp h
  cases he
  exact ⟨t, rfl⟩

/-- Inserting an identity either does nothing, or puts it where the unique indexes have room. -/
theorem run_insertIdentity {identity : OauthIdentity} {b : Except AppError Uuid}
    (h : (Query.insertIdentity identity).run env i db = some (b, db')) :
    (∃ e, b = .error e) ∧ db' = db ∨ ∃ k t, b = .ok k ∧
      db.identities.insertFresh .tx i identity.clashes identity = some (some k, t) ∧
      db' = { db with identities := t } := by
  simp only [Query.run] at h
  split at h
  · cases h
    exact Or.inl ⟨⟨_, rfl⟩, rfl⟩
  · split at h
    · cases h
      exact Or.inl ⟨⟨_, rfl⟩, rfl⟩
    · obtain ⟨⟨o, t⟩, ht, he⟩ := Option.map_eq_some_iff.mp h
      obtain ⟨-, ⟨rfl, rfl⟩ | ⟨rfl, -⟩⟩ := Table.insertFresh_cases ht
      · cases he
        exact Or.inl ⟨⟨_, rfl⟩, rfl⟩
      · cases he
        exact Or.inr ⟨_, t, rfl, ht, rfl⟩

theorem run_touchLogin {k : Uuid} {now : Instant} {b : Option Unit}
    (h : (Query.touchLogin k now).run env i db = some (b, db')) :
    ∃ t, db.identities.modify .tx i k (Table.updating fun identity =>
      some ((), { identity with lastLoginAt := some now })) = some (b, t) ∧
      db' = { db with identities := t } := by
  obtain ⟨⟨b', t⟩, ht, he⟩ := Option.map_eq_some_iff.mp h
  cases he
  exact ⟨t, ht, rfl⟩

end Inversion

end Accounts

end Marketplace
