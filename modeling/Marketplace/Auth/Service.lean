import Marketplace.Auth.Store

/-!
# The sign-in service

The requests of the service as programs of queries: signing in with a password,
with or without the code that follows it, changing a password, resetting it through
a link, and proving an address.

The programs follow the source statement by statement. A statement with a condition
first looks for its row in its snapshot, and if the row is there goes on to the
latest version of it (`Marketplace.onCredential` and its siblings); `now()` is the
instant at which the transaction began, or the statement when it is issued on its
own. A transaction that is not committed is rolled back
(`Marketplace.inTransaction`). What is left out neither reads nor writes the five
tables: the audit log, tracing, and rate limiting, whose refusal of a request is a
process that stops there.

Identifiers and salts are the process that draws them: no request draws two of the
same kind.
-/

namespace Marketplace

open ReadCommitted

/-- A fragment of the service. -/
abbrev Serving (α : Type) := Action ℕ Db Query AppError α

variable {α β : Type}

/-! ### Statements -/

/-- The current instant. -/
def clock : Serving Instant := .look fun _ db => db.clock

/-- `pool.begin()` … `tx.commit()`, where the body knows the transaction's `now()`. -/
def inTransaction (body : Instant → Serving α) : Serving α := do
  let now ← clock
  Action.transaction .commit .rollback (body now)

/-- `pool.begin()` … without a commit: the transaction is rolled back either way. -/
def inDroppedTransaction (body : Instant → Serving α) : Serving α := do
  let now ← clock
  Action.transaction .rollback .rollback (body now)

/-- An update of a credential. -/
def onCredential (m : Mode) (q : Passwords.Query (Option β)) : Serving (Option β) := do
  let hit ← Action.look fun j db => (q.act j (db.credentials.row j q.key)).2.isSome
  if hit then Action.query (.credentials m q) else pure none

/-- `passwords::find`. -/
def findCredential (userId : Uuid) : Serving (Option Credential) :=
  .look fun j db => db.credentials.row j userId

/-- `users::find_by_id`. -/
def findUserById (userId : Uuid) : Serving (Option User) :=
  .look fun j db => db.users.row j userId

/-- `users::find_by_email`. -/
def findUserByEmail (env : Env) (email : Text) : Serving (Option (Uuid × User)) :=
  .look fun j db => Users.findByEmail env j email db.users

/-- `users::mark_email_verified`. -/
def markEmailVerified (userId : Uuid) (now : Instant) : Serving Unit := do
  let hit ← Action.look fun j db =>
    (db.users.row j userId).any fun u => u.emailVerifiedAt.isNone
  if hit then
    let _ ← Action.query (.users (.markEmailVerified userId now))
    pure ()
  else pure ()

/-- `auth_tokens::verify_code`. -/
def verifyCode (m : Mode) (challengeId : Uuid) (purpose : Purpose) (hash : Digest)
    (maxAttempts : ℕ) (now : Instant) : Serving CodeOutcome := do
  let q := AuthTokens.Query.verifyCode challengeId purpose hash maxAttempts now
  let hit ← Action.look fun j db => (q.act (db.tokens.row j challengeId)).2.isSome
  if hit then Action.query (.tokens m q) else pure .gone

/-- The open link with this digest, as process `j` sees it. -/
def openLink (tokenHash : Digest) (purpose : Purpose) (now : Instant) (j : ℕ) (db : Db) :
    Option Uuid :=
  (db.tokens.scan j fun _ t => t.tokenHash = tokenHash && t.purpose = purpose && t.live now).head?

/-- `auth_tokens::peek_link`. -/
def peekLink (tokenHash : Digest) (purpose : Purpose) (now : Instant) : Serving (Option Uuid) :=
  .look fun j db =>
    (openLink tokenHash purpose now j db).bind fun k => (db.tokens.row j k).map AuthToken.userId

/-- `auth_tokens::consume_link`. -/
def consumeLink (tokenHash : Digest) (purpose : Purpose) (now : Instant) :
    Serving (Option Uuid) := do
  let hit ← Action.look (openLink tokenHash purpose now)
  match hit with
  | some k => Action.query (.tokens .tx (.consumeLink k tokenHash purpose now))
  | none => pure none

/-- `auth_tokens::issue`. -/
def issue (id userId : Uuid) (purpose : Purpose) (tokenHash : Digest) (ttlSecs : ℕ)
    (authorisedBy : Option ℕ) (now : Instant) : Serving Unit := do
  let opened ← Action.look fun j db => db.tokens.scan j fun _ t =>
    t.userId = userId && t.purpose = purpose && t.consumedAt.isNone
  let _ ← Action.ofProg (Prog.countEach opened fun k =>
    .query (.tokens .tx (.consumeOpen k userId purpose now)) fun hit => .ret hit.isSome)
  let inserted ← Action.query (.tokens .tx (.insert id
    { userId := userId, purpose := purpose, tokenHash := tokenHash, expiresAt := now + ttlSecs
      authorisedBy := authorisedBy }))
  if inserted then pure () else throw (.internal "duplicate key")

/-- `email_outbox::enqueue`. -/
def enqueueEmail (id : Uuid) (email : Email) : Serving Unit := do
  let inserted ← Action.query (.enqueue id email)
  if inserted then pure () else throw (.internal "duplicate key")

/-- `sessions::revoke`. -/
def revokeSession (id : Uuid) (reason : RevocationReason) (now : Instant) : Serving Bool := do
  let hit ← Action.look fun j db => (db.sessions.row j id).any fun s => s.revoked.isNone
  if hit then
    let done ← Action.query (.sessions (.revoke id reason now))
    pure done.isSome
  else pure false

/-- `sessions::revoke_all_for_user`. -/
def revokeAllForUser (userId : Uuid) (reason : RevocationReason) (except : Option Uuid)
    (now : Instant) : Serving ℕ := do
  let live ← Action.look fun j db => db.sessions.scan j fun k s =>
    s.userId = userId && s.revoked.isNone && except ≠ some k
  Action.ofProg (Prog.countEach live fun k =>
    .query (.sessions (.revokeOf k userId reason except now)) fun hit => .ret hit.isSome)

/-! ### What the requests have in common -/

/-- A session, as it is handed to the browser. -/
structure IssuedSession where
  /-- The row. -/
  sessionId : Uuid
  /-- The token, which only the browser keeps. -/
  token : Text
  /-- When the session dies of age. -/
  absoluteExpiresAt : Instant
  deriving DecidableEq

/-- A sign-in that is waiting on the emailed code. -/
structure Challenge where
  /-- The token's row. -/
  challengeId : Uuid
  /-- Where the code went. -/
  email : Text
  deriving DecidableEq

/-- What a request is answered with. -/
inductive Response
  /-- The request is done. -/
  | done
  /-- A sign-in that ended with a session. -/
  | signedIn (userId : Uuid) (session : IssuedSession)
  /-- A sign-in, or the proof of an address, that is waiting on a code. The account is a
  history variable: nobody is told. -/
  | challenged (challenge : Challenge) (account : Uuid)
  /-- A sign-in by code, with the cookie that remembers the browser. -/
  | remembered (userId : Uuid) (session : IssuedSession) (device : DeviceCookie)
  /-- The session that replaces the one the password was changed from. -/
  | rotated (session : IssuedSession)
  /-- The account, with the address just proved. -/
  | account (user : User)
  deriving DecidableEq

section Service

variable (env : Env) (i : ℕ)

/-- Create a session row and mint its token. -/
def issueSession (userId : Uuid) (begun now : Instant) (authorisedBy : Option ℕ) :
    Serving IssuedSession := do
  let raw := env.rawToken i
  let absoluteExpiresAt := now + env.sessionAbsolute
  let idleExpiresAt := min (now + env.sessionIdle) absoluteExpiresAt
  let inserted ← Action.query (.sessions (.insert i
    { userId := userId, tokenHash := env.digestToken raw, idleExpiresAt := idleExpiresAt
      absoluteExpiresAt := absoluteExpiresAt, lastSeenAt := begun
      authorisedBy := authorisedBy }))
  if inserted then pure ⟨i, raw, absoluteExpiresAt⟩ else throw (.internal "duplicate key")

/-- Create a code challenge for an account and queue its email. -/
def issueChallenge (userId : Uuid) (email : Text) (authorisedBy : Option ℕ) (now : Instant) :
    Serving Challenge := do
  let code := generateCode env i
  issue i userId .loginCode (codeHash env i code) codeTtlSecs authorisedBy now
  enqueueEmail i ⟨userId, email, .loginCode code⟩
  pure ⟨i, email⟩

/-- Confirm, under a row lock, that the world still matches what was verified. -/
def revalidate (userId : Uuid) (verifiedHash : Text) (now : Instant) : Serving User := do
  let current ← onCredential .tx (.findForUpdate userId)
  let user ← findUserById userId
  match current, user with
  | some current, some user =>
    if !user.status.canAuthenticate then throw .unauthenticated
    else if current.passwordHash ≠ verifiedHash then throw .unauthenticated
    else if current.isLockedAt now then throw .unauthenticated
    else pure user
  | _, _ => throw .unauthenticated

/-! ### Signing in -/

/-- What the first phase of a login found. The last field of `proceed` is the
generation of the password, a history variable. -/
inductive Precheck
  /-- No account has the address. -/
  | noAccount
  /-- The account may not authenticate. -/
  | inactive (userId : Uuid)
  /-- The account has no password. -/
  | noPassword (userId : Uuid)
  /-- The account is locked. -/
  | locked (userId : Uuid)
  /-- The password is to be verified against this hash. -/
  | proceed (userId : Uuid) (passwordHash : Text) (generation : ℕ)

/-- `passwords::clear_failures`, of a lock found elapsed. -/
def clearElapsed (userId : Uuid) : Serving Unit := do
  let now ← clock
  let _ ← onCredential .auto (.clearFailures userId .elapsed now)
  pure ()

/-- Phase 1: everything that needs the database, and nothing that does not. -/
def loginPrecheck (email : Text) (now : Instant) : Serving Precheck := do
  let found ← findUserByEmail env (trim email)
  match found with
  | none => pure .noAccount
  | some (userId, user) =>
    if !user.status.canAuthenticate then pure (.inactive userId)
    else do
      let credential ← findCredential userId
      match credential with
      | none => pure (.noPassword userId)
      | some credential =>
        if credential.isLockedAt now then pure (.locked userId)
        else do
          if credential.lockedUntil.isSome then clearElapsed userId else pure ()
          pure (.proceed userId credential.passwordHash credential.generation)

/-- A wrong password: count it. -/
def refuseLogin (userId : Uuid) : Serving Response := do
  let now ← clock
  let after ← onCredential .auto (.recordFailure userId now)
  match after with
  | some _ => throw .unauthenticated
  | none => throw (.internal "row not found")

/-- Phase 3: revalidate under the row lock, then act. -/
def completeLogin (userId : Uuid) (verifiedHash : Text) (generation : ℕ) (remembered : Bool)
    (now : Instant) : Serving Response :=
  inTransaction fun begun => do
    let current ← clock
    let user ← revalidate userId verifiedHash current
    let _ ← onCredential .tx (.clearFailures userId .verified begun)
    if remembered then
      let session ← issueSession env i userId begun now (some generation)
      pure (.signedIn userId session)
    else match user.email with
      | none => throw (.internal "password account with no email")
      | some address =>
        let challenge ← issueChallenge env i userId address (some generation) begun
        pure (.challenged challenge userId)

/-- Replace a stored hash whose parameters are below the current ones. -/
def upgradeHashIfNeeded (userId : Uuid) (verifiedHash password : Text) : Serving Unit :=
  if env.needsRehash verifiedHash then do
    let _ ← onCredential .auto (.upgradeHash userId verifiedHash (env.hash i password))
    pure ()
  else pure ()

/-- A login that has begun. -/
def loginAt (email password : Text) (device : Option DeviceCookie) (now : Instant) :
    Serving Response := do
  let precheck ← loginPrecheck env email now
  match precheck with
  | .noAccount | .inactive _ | .noPassword _ | .locked _ => throw .unauthenticated
  | .proceed userId verifiedHash generation =>
    if !env.verify password verifiedHash then refuseLogin userId
    else do
      let remembered := device.any fun value => deviceRemembers env value userId now
      let result ← completeLogin env i userId verifiedHash generation remembered now
      upgradeHashIfNeeded env i userId verifiedHash password
      pure result

/-- **Authenticate with a password.** A device cookie that remembers the account skips
the emailed code. -/
def login (email password : Text) (device : Option DeviceCookie) : Serving Response := do
  let now ← clock
  loginAt env i email password device now

/-- What a wrong, expired, consumed or unknown code is answered with. -/
def badCode : AppError := .invalid "That code is incorrect or has expired."

/-- Act on a matched code: its owner signs in, and their address is proved. -/
def completeLoginCode (userId : Uuid) (authorisedBy : Option ℕ) (now : Instant) :
    Serving IssuedSession :=
  inTransaction fun begun => do
    let user ← findUserById userId
    match user with
    | none => throw .unauthenticated
    | some user =>
      if !user.status.canAuthenticate then throw .unauthenticated
      else do
        markEmailVerified userId begun
        let user ← findUserById userId
        match user with
        | none => throw .unauthenticated
        | some _ => issueSession env i userId begun now authorisedBy

/-- **Exchange a challenge and its emailed code for a session.** The attempt is spent
on its own, not in the transaction that acts on success. -/
def verifyLoginCode (challengeId : Uuid) (code : Text) : Serving Response := do
  let now ← clock
  let spentAt ← clock
  let outcome ← verifyCode .auto challengeId .loginCode (codeHash env challengeId (trim code))
    maxCodeAttempts spentAt
  match outcome with
  | .wrong | .gone => throw badCode
  | .matched userId authorisedBy => do
    let session ← completeLoginCode env i userId authorisedBy now
    pure (.remembered userId session (deviceValue env userId (now + deviceTtl)))

/-- **Re-send a challenge's code, as a fresh challenge.** -/
def resendLoginCode (challengeId : Uuid) : Serving Response := do
  let asked ← clock
  let token ← Action.look fun j db => (db.tokens.row j challengeId).filter fun t =>
    t.purpose = .loginCode && t.live asked
  match token with
  | none => throw badCode
  | some token => do
    let user ← findUserById token.userId
    match user with
    | none => throw badCode
    | some user =>
      inTransaction fun begun => do
        match user.email with
        | none => throw (.internal "challenged account with no email")
        | some address =>
          let challenge ← issueChallenge env i token.userId address token.authorisedBy begun
          pure (.challenged challenge token.userId)

/-! ### Replacing a password -/

/-- **Ask for a password-reset link.** The answer is the same whether or not the
address is known. -/
def requestPasswordReset (email : Text) : Serving Response := do
  if !looksLikeEmail (trim email) then throw (.invalid "Enter a valid email address.")
  else do
    let found ← findUserByEmail env (trim email)
    match found with
    | none => pure .done
    | some (userId, user) =>
      if !user.status.canAuthenticate then pure .done
      else do
        let raw := env.rawToken i
        match user.email with
        | some address => inTransaction fun begun => do
            issue i userId .passwordReset (env.digestToken raw) resetTtlSecs none begun
            enqueueEmail i ⟨userId, address, .passwordReset raw⟩
            pure .done
        | none => inDroppedTransaction fun begun => do
            issue i userId .passwordReset (env.digestToken raw) resetTtlSecs none begun
            pure .done

/-- What an invalid or expired link is answered with. -/
def badLink : AppError := .invalid "That reset link is invalid or has expired."

/-- **Complete a reset**: the emailed link plus a new password. -/
def confirmPasswordReset (token newPassword : Text) : Serving Response := do
  let digest := env.digestToken (trim token)
  let asked ← clock
  let owner ← peekLink digest .passwordReset asked
  match owner with
  | none => throw badLink
  | some userId => do
    let user ← findUserById userId
    match user with
    | none => throw badLink
    | some user =>
      if !user.status.canAuthenticate then throw badLink
      else match checkPolicy env newPassword (user.email.getD []) with
        | some refusal => throw refusal
        | none =>
          let newHash := env.hash i newPassword
          inTransaction fun begun => do
            let spent ← consumeLink digest .passwordReset begun
            match spent with
            | none => throw badLink
            | some _ => do
              Action.query (.credentials .tx (.setHash userId newHash))
              let _ ← revokeAllForUser userId .passwordChange none begun
              markEmailVerified userId begun
              pure .done

/-- What a change is answered with when the account changed under it. -/
def changedInFlight : AppError :=
  .conflict "This account changed while the request was in flight. Try again."

/-- `revalidate`, where the caller is told what happened. -/
def revalidateForChange (userId : Uuid) (verifiedHash : Text) (now : Instant) : Serving User :=
  Prog.bind (revalidate userId verifiedHash now) fun
    | .ok user => .ret (.ok user)
    | .error .unauthenticated => .ret (.error changedInFlight)
    | .error e => .ret (.error e)

/-- Phase 3 of a change: revalidate under the row lock, swap, and rotate the calling
session. -/
def swapPassword (userId currentSessionId : Uuid) (verifiedHash newHash : Text)
    (generation : ℕ) (now : Instant) : Serving Response :=
  inTransaction fun begun => do
    let current ← clock
    let _ ← revalidateForChange userId verifiedHash current
    let replaced ← onCredential .tx (.replaceHash userId verifiedHash newHash)
    match replaced with
    | none => throw changedInFlight
    | some _ => do
      let _ ← revokeAllForUser userId .passwordChange (some currentSessionId) begun
      let _ ← revokeSession currentSessionId .rotation begun
      let session ← issueSession env i userId begun now (some (generation + 1))
      pure (.rotated session)

/-- **Change a password.** -/
def changePassword (userId currentSessionId : Uuid) (currentPassword newPassword : Text) :
    Serving Response := do
  let now ← clock
  let user ← findUserById userId
  match user with
  | none => throw .unauthenticated
  | some user => do
    let credential ← findCredential userId
    match credential with
    | none => throw (.invalid "This account has no password set.")
    | some credential =>
      let verifiedHash := credential.passwordHash
      if !env.verify currentPassword verifiedHash then
        throw (.invalid "Your current password is not correct.")
      else match checkPolicy env newPassword (user.email.getD []) with
        | some refusal => throw refusal
        | none =>
          if currentPassword = newPassword then
            throw (.invalid "The new password must be different from the current one.")
          else
            swapPassword env i userId currentSessionId verifiedHash (env.hash i newPassword)
              credential.generation now

/-! ### Proving an address -/

/-- The address to prove: the new one, or the one already on file. -/
def verificationTarget (newEmail : Option Text) (user : User) : Except AppError Text :=
  match (newEmail.map trim).filter fun value => !value.isEmpty with
  | some address =>
    if !looksLikeEmail address then .error (.invalid "Enter a valid email address.")
    else .ok address
  | none => match user.email with
    | some address => .ok address
    | none => .error (.invalid "This account has no email address yet — enter one to confirm.")

/-- **Start proving an address**: issue a code to it. -/
def requestEmailVerification (userId : Uuid) (newEmail : Option Text) : Serving Response :=
  inTransaction fun begun => do
    let user ← findUserById userId
    match user with
    | none => throw .unauthenticated
    | some user =>
      match verificationTarget newEmail user with
      | .error e => throw e
      | .ok target => do
        let code := generateCode env i
        issue i userId .emailVerify (emailVerifyHash env i code target) codeTtlSecs none begun
        enqueueEmail i ⟨userId, target, .emailVerify code⟩
        pure (.challenged ⟨i, target⟩ userId)

/-- Act on a matched code: mark the address on file, or set the new one. -/
def recordAddress (userId : Uuid) (email : Text) (now : Instant) :
    Serving (Except AppError Response) := do
  let user ← findUserById userId
  match user with
  | none => throw .unauthenticated
  | some user =>
    if user.email.any fun current => eqIgnoreAsciiCase current email then do
      markEmailVerified userId now
      let user ← findUserById userId
      match user with
      | none => throw .unauthenticated
      | some user => pure (.ok (.account user))
    else do
      let written ← Action.query (.users (.updateEmail userId email now))
      match written with
      | .error e => throw e
      | .ok user => pure (.ok (.account user))

/-- **Finish proving an address**: the code came back from the inbox. A wrong code is
counted, so its transaction commits; what follows a right one does not commit unless
it succeeds. -/
def confirmEmail (userId challengeId : Uuid) (code email : Text) : Serving Response := do
  let email := trim email
  let result : Except AppError Response ← inTransaction fun begun => do
    let outcome ← verifyCode .tx challengeId .emailVerify
      (emailVerifyHash env challengeId (trim code) email) maxCodeAttempts begun
    match outcome with
    | .wrong | .gone => pure (.error badCode)
    | .matched owner _ =>
      if owner ≠ userId then throw .unauthenticated
      else recordAddress userId email begun
  match result with
  | .ok response => pure response
  | .error e => throw e

/-! ### Signing out -/

/-- **End the calling session.** -/
def logout (sessionId : Uuid) : Serving Response :=
  inTransaction fun begun => do
    let _ ← revokeSession sessionId .logout begun
    pure .done

/-- **End every session of the account.** -/
def logoutAll (userId : Uuid) : Serving Response :=
  inTransaction fun begun => do
    let _ ← revokeAllForUser userId .logoutAll none begun
    pure .done

end Service

/-! ### The system -/

/-- A request. -/
inductive Request
  | login (email password : Text) (device : Option DeviceCookie)
  | verifyLoginCode (challengeId : Uuid) (code : Text)
  | resendLoginCode (challengeId : Uuid)
  | requestPasswordReset (email : Text)
  | confirmPasswordReset (token newPassword : Text)
  | changePassword (userId currentSessionId : Uuid) (currentPassword newPassword : Text)
  | requestEmailVerification (userId : Uuid) (newEmail : Option Text)
  | confirmEmail (userId challengeId : Uuid) (code email : Text)
  | logout (sessionId : Uuid)
  | logoutAll (userId : Uuid)
  deriving DecidableEq

variable (env : Env)

/-- The program of a request, at process `i`. -/
def serve (i : ℕ) : Request → Serving Response
  | .login email password device => login env i email password device
  | .verifyLoginCode challengeId code => verifyLoginCode env i challengeId code
  | .resendLoginCode challengeId => resendLoginCode env i challengeId
  | .requestPasswordReset email => requestPasswordReset env i email
  | .confirmPasswordReset token newPassword => confirmPasswordReset env i token newPassword
  | .changePassword userId session current new => changePassword env i userId session current new
  | .requestEmailVerification userId newEmail => requestEmailVerification env i userId newEmail
  | .confirmEmail userId challengeId code email => confirmEmail env userId challengeId code email
  | .logout sessionId => logout sessionId
  | .logoutAll userId => logoutAll userId

/-- **The sign-in service**, as a system. -/
def authService : System ℕ Db Request (Except AppError Response) Query where
  run := Query.run env
  rollback := .rollback
  tick := Db.tick
  program := fun i r => (serve env i r).run

theorem authService_run {β : Type} {q : Query β} {i : ℕ} {db : Db} :
    (authService env).run q i db = q.run env i db :=
  rfl

/-! ### A small database -/

/-- A password as it was registered. -/
def firstCredential : Credential :=
  { passwordHash := "old$first password".toList
    trail := [.registered "old$first password".toList] }

/-- A homeowner with an address. -/
def firstUser : User :=
  { email := some "a@b.c".toList, displayName := "Ann".toList, accountType := .homeowner }

/-- One account, with an address and a password, and nothing going on. -/
def oneAccount : Db where
  users := Table.empty.put 0 { committed := some firstUser }
  credentials := Table.empty.put 0 { committed := some firstCredential }

/-- A sign-in with the password of `oneAccount`, from a browser that is not remembered. -/
def signInRequest : Request := .login "a@b.c".toList "first password".toList none

/-- A change of the password of `oneAccount`. -/
def changeTo (new : String) : Request :=
  .changePassword 0 7 "first password".toList new.toList

end Marketplace
