import Marketplace.Auth.FederatedSignIn
import Marketplace.ReadCommitted.Provenance

/-!
# What has opened a session

A row of `sessions` names an account, and not why it may be used for that account. Whoever has
inserted the row knew: it had looked at a credential, spent a code or found an identity some
statements earlier, with the statements of others in between. Followed through whole runs, this is
known of every session. It has been opened with a password and a browser that is remembered, with
the code of a challenge, with the current password, or with an identity that a provider vouches for
(`Marketplace.Accounts.Opened`), and a challenge is only ever made for a password, for a registration
or in place of another challenge for the same account (`Marketplace.Accounts.Challenged`). So a
password alone opens nothing (`Marketplace.Accounts.session_opened`).

Sessions and challenges are known by the process that makes them.
-/

namespace Marketplace.Accounts

open ReadCommitted

/-- **What is known of a run**: where it starts, which requests are served in it, and through which
states it passes. -/
structure Trail where
  start : Db
  serves : ℕ → Request → Prop
  seen : Db → Prop

variable (env : Surroundings) (T : Trail)

namespace Trail

/-- Process `i` has found account `u` under an address, and it may authenticate. -/
def Addressed (i : ℕ) (u : Uuid) (email : Text) : Prop :=
  ∃ db user, T.seen db ∧ Users.findByEmail env.toEnv i (trim email) db.auth.users = some (u, user) ∧
    user.status.canAuthenticate = true

/-- Process `i` has seen the credential of account `u`, with this hash. -/
def Stores (i : ℕ) (u : Uuid) (hash : Text) : Prop :=
  ∃ db credential, T.seen db ∧ db.auth.credentials.row i u = some credential ∧
    credential.passwordHash = hash

/-- The password is that of account `u`, as process `i` has seen its credential. -/
def Verifies (i : ℕ) (u : Uuid) (password : Text) : Prop :=
  ∃ db credential, T.seen db ∧ db.auth.credentials.row i u = some credential ∧
    env.verify password credential.passwordHash = true

/-- The browser is remembered for account `u`. -/
def Remembers (u : Uuid) (value : DeviceCookie) : Prop :=
  ∃ db, T.seen db ∧ deviceRemembers env.toEnv value u db.auth.clock = true

/-- Process `i` has seen the challenge for account `u`, and the code is its. -/
def Answers (i : ℕ) (k u : Uuid) (code : Text) : Prop :=
  ∃ db token, T.seen db ∧ db.auth.tokens.row i k = some token ∧ token.purpose = .loginCode ∧
    token.userId = u ∧ token.tokenHash = codeHash env.toEnv k (trim code)

/-- Process `i` has found that the identity belongs to account `u`. -/
def Links (i : ℕ) (u : Uuid) (x : Provider × Text) : Prop :=
  ∃ db k link, T.seen db ∧ db.identities.row i k = some link ∧ link.key = x ∧ link.userId = u

/-- There was no account `u` yet. -/
def New (u : Uuid) : Prop := ∃ db, T.seen db ∧ db.auth.users.fresh = u

end Trail

/-- **Challenge `k` is for account `u`**, and has been made for a reason. -/
inductive Challenged : Uuid → Uuid → Prop
  | before {k u : Uuid} {token : AuthToken} (h : (T.start.auth.tokens.slot k).Version token)
      (hu : token.userId = u) : Challenged k u
  | password {i u : ℕ} {email password : Text} {device : Option DeviceCookie}
      (h : T.serves i (.service (.login email password device))) (hfound : T.Addressed env i u email)
      (hpassword : T.Verifies env i u password) : Challenged i u
  | registered {i u : ℕ} {email displayName password : Text} {accountType : AccountType}
      (h : T.serves i (.register email displayName password accountType)) (hu : T.New u) :
      Challenged i u
  | resent {i k u : ℕ} (h : T.serves i (.service (.resendLoginCode k))) (hk : Challenged k u) :
      Challenged i u

/-- **Session `k` is of account `u`**, and has been opened by its owner. -/
inductive Opened : Uuid → Uuid → Prop
  | before {k u : Uuid} {s : Session} (h : (T.start.auth.sessions.slot k).Version s)
      (hu : s.userId = u) : Opened k u
  | remembered {i u : ℕ} {email password : Text} {value : DeviceCookie}
      (h : T.serves i (.service (.login email password (some value))))
      (hfound : T.Addressed env i u email) (hpassword : T.Verifies env i u password)
      (hdevice : T.Remembers env u value) : Opened i u
  | code {i k u : ℕ} {code : Text} (h : T.serves i (.service (.verifyLoginCode k code)))
      (hk : Challenged env T k u) (hcode : T.Answers env i k u code) : Opened i u
  | changed {i u current : ℕ} {password new : Text}
      (h : T.serves i (.service (.changePassword u current password new)))
      (hpassword : T.Verifies env i u password) : Opened i u
  | linked {i u : ℕ} {provider : Provider} {idToken : Text} {side : Option AccountType}
      {email name : Option Text} {identity : VerifiedIdentity}
      (h : T.serves i (.signInWithProvider provider idToken side email name))
      (hverified : env.verifyToken i idToken provider = .ok identity)
      (hlink : T.Links i u (provider, identity.providerSubject)) : Opened i u
  | arrived {i u : ℕ} {provider : Provider} {idToken : Text} {side : Option AccountType}
      {email name : Option Text} {identity : VerifiedIdentity}
      (h : T.serves i (.signInWithProvider provider idToken side email name))
      (hverified : env.verifyToken i idToken provider = .ok identity) (hu : T.New u) : Opened i u

variable {env T} {α β : Type} {i : ℕ} {u : Uuid}

/-! ### What is preserved -/

/-- **Every session has been opened, and every challenge made, for a reason.** -/
structure Reasons (env : Surroundings) (T : Trail) (auth : Marketplace.Db) : Prop where
  sessions : auth.sessions.Holds fun k s => Opened env T k s.userId
  challenges : auth.tokens.Holds fun k t => t.purpose = .loginCode → Challenged env T k t.userId

/-- The query makes no other sessions and challenges. -/
def Reasoned (env : Surroundings) (T : Trail) : Marketplace.Query β → Prop
  | .sessions (.insert k s) => Opened env T k s.userId
  | .tokens _ (.insert k t) => t.purpose = .loginCode → Challenged env T k t.userId
  | _ => True

def Query.Reasoned (env : Surroundings) (T : Trail) : Query β → Prop
  | .service q => Accounts.Reasoned env T q
  | _ => True

theorem Reasons.run {auth auth' : Marketplace.Db} {q : Marketplace.Query β} {b : β}
    (h : Reasons env T auth) (hq : Reasoned env T q) (hrun : q.run env.toEnv i auth = some (b, auth')) :
    Reasons env T auth' := by
  cases q with
  | credentials m q =>
    obtain ⟨t, -, rfl⟩ := Query.run_credentials hrun
    exact ⟨h.sessions, h.challenges⟩
  | tokens m q =>
    obtain ⟨t, ht, rfl⟩ := Query.run_tokens hrun
    refine ⟨h.sessions, (Table.effect_of_modify
      (A := fun k _ r => r.purpose = .loginCode → Challenged env T k r.userId) ht fun r hr => ?_).holds
      h.challenges fun _ _ hr => hr⟩
    rcases hrow : auth.tokens.row i q.key with _ | token
    · rw [hrow] at hr
      cases q with
      | insert k token =>
        cases hr
        exact hq
      | consumeOpen | verifyCode | consumeLink => cases hr
    · rw [hrow] at hr
      have hold := h.challenges.row hrow
      cases AuthTokens.act_of_query hr with
      | consumed | guessed => exact hold
  | sessions q =>
    obtain ⟨t, ht, rfl⟩ := Query.run_sessions hrun
    refine ⟨(Table.effect_of_modify (A := fun k _ r => Opened env T k r.userId) ht fun r hr => ?_).holds
      h.sessions fun _ _ hr => hr, h.challenges⟩
    rcases hrow : auth.sessions.row i q.key with _ | s
    · rw [hrow] at hr
      cases q with
      | insert k s =>
        cases hr
        exact hq
      | revoke | revokeOf => cases hr
    · rw [hrow] at hr
      have hold := h.sessions.row hrow
      cases Sessions.act_of_query hr with
      | revoked => exact hold
  | users q =>
    obtain ⟨t, -, rfl⟩ := Query.run_users hrun
    exact ⟨h.sessions, h.challenges⟩
  | enqueue k email =>
    obtain ⟨t, -, rfl⟩ := Query.run_enqueue hrun
    exact ⟨h.sessions, h.challenges⟩
  | commit =>
    obtain rfl := Query.run_commit hrun
    exact ⟨fun k s hs => h.sessions k s (Slot.version_commit hs),
      fun k t ht => h.challenges k t (Slot.version_commit ht)⟩
  | rollback =>
    obtain rfl := Query.run_rollback hrun
    exact ⟨fun k s hs => h.sessions k s (Slot.version_rollback hs),
      fun k t ht => h.challenges k t (Slot.version_rollback ht)⟩

theorem Reasons.query {db db' : Db} {q : Query β} {b : β} (h : Reasons env T db.auth)
    (hq : q.Reasoned env T) (hrun : q.run env.toEnv i db = some (b, db')) :
    Reasons env T db'.auth := by
  cases q with
  | service q =>
    obtain ⟨auth, hauth, rfl⟩ := run_service hrun
    exact h.run hq hauth
  | touch k idle secs now =>
    obtain ⟨⟨b', t⟩, ht, he⟩ := Option.map_eq_some_iff.mp hrun
    cases he
    refine ⟨(Table.effect_of_modify (A := fun k _ r => Opened env T k r.userId) ht fun r hr => ?_).holds
      h.sessions fun _ _ hr => hr, h.challenges⟩
    obtain ⟨s, b, hrow, hs⟩ := Table.updating_cases hr
    split at hs
    · cases hs
      have hold := h.sessions.row hrow
      exact hold
    · cases hs
  | insertUser user =>
    rcases run_insertUser hrun with ⟨-, rfl⟩ | ⟨-, rfl⟩
    · exact h
    · exact ⟨h.sessions, h.challenges⟩
  | insertCredential k hash =>
    obtain ⟨t, rfl⟩ := run_insertCredential hrun
    exact ⟨h.sessions, h.challenges⟩
  | insertIdentity identity =>
    rcases run_insertIdentity hrun with ⟨-, rfl⟩ | ⟨k, t, -, -, rfl⟩ <;> exact h
  | touchLogin k now =>
    obtain ⟨t, -, rfl⟩ := run_touchLogin hrun
    exact h

/-! ### The sign-in service -/

/-- **What process `i` is told**: it looks at states of the run, and is answered in such states. -/
structure Tells (env : Surroundings) (T : Trail) (i : ℕ) (J : Told Db Query) : Prop where
  look : ∀ {t s}, J.look t s → T.seen s ∧ Reasons env T s.auth
  answer : ∀ {β : Type} {q : Query β} {b : β}, J.answer q b → ∃ s s', T.seen s ∧
    Reasons env T s.auth ∧ q.run env.toEnv i s = some (b, s')

section Service

variable {g : Option ℕ} {purpose : Purpose}

theorem issues_loginCode (h : Challenged env T i u) : Issues (Reasoned env T) i u .loginCode g :=
  ⟨fun _ _ => trivial, fun _ _ _ => h, fun _ => trivial⟩

theorem issues_of_ne (h : purpose ≠ .loginCode) : Issues (Reasoned env T) i u purpose g :=
  ⟨fun _ _ => trivial, fun _ _ hpurpose => absurd hpurpose h, fun _ => trivial⟩

theorem reasoned_issueSession {begun now : Instant} (h : Opened env T i u) :
    (issueSession env.toEnv i u begun now g).run.Each (Reasoned env T) :=
  each_issueSession fun s hs _ _ => show Opened env T i s.userId from hs ▸ h

/-- A login ends with a session for a browser that is remembered, and else with a challenge. -/
theorem reasoned_completeLogin {hash : Text} {generation : ℕ} {remembered : Bool} {now : Instant}
    (hopened : remembered = true → Opened env T i u) (hchallenged : Challenged env T i u) :
    (completeLogin env.toEnv i u hash generation remembered now).run.Each (Reasoned env T) := by
  refine Marketplace.each_inTransaction trivial trivial fun begun => ?_
  refine Action.each_andThen (fun _ => trivial) fun current => ?_
  refine Action.each_andThen (each_revalidate trivial) fun user => ?_
  refine Action.each_andThen (each_onCredential trivial) fun _ => ?_
  split_ifs with hremembered
  · exact Action.each_andThen (reasoned_issueSession (hopened hremembered)) fun _ => trivial
  · rcases user.email with _ | address
    · exact trivial
    · exact Action.each_andThen (each_issueChallenge (issues_loginCode hchallenged)) fun _ => trivial

theorem reasoned_completeLoginCode {now : Instant} (h : Opened env T i u) :
    (completeLoginCode env.toEnv i u g now).run.Each (Reasoned env T) := by
  refine Marketplace.each_inTransaction trivial trivial fun begun => ?_
  refine Action.each_andThen (fun _ => trivial) fun user => ?_
  rcases user with _ | user
  · exact trivial
  · dsimp only
    split_ifs
    · exact trivial
    · refine Action.each_andThen (each_markEmailVerified trivial) fun _ => ?_
      refine Action.each_andThen (fun _ => trivial) fun user => ?_
      rcases user with _ | user
      · exact trivial
      · exact reasoned_issueSession h

theorem reasoned_swapPassword {session : Uuid} {hash newHash : Text} {generation : ℕ} {now : Instant}
    (h : Opened env T i u) :
    (swapPassword env.toEnv i u session hash newHash generation now).run.Each (Reasoned env T) := by
  refine Marketplace.each_inTransaction trivial trivial fun begun => ?_
  refine Action.each_andThen (fun _ => trivial) fun current => ?_
  refine Action.each_andThen (each_revalidateForChange trivial) fun _ => ?_
  refine Action.each_andThen (each_onCredential trivial) fun replaced => ?_
  rcases replaced with _ | done
  · exact trivial
  · refine Action.each_andThen (each_revokeAllForUser fun _ => trivial) fun _ => ?_
    refine Action.each_andThen (each_revokeSession trivial) fun _ => ?_
    exact Action.each_andThen (reasoned_issueSession h) fun _ => trivial

end Service

/-- What is known after the first phase of a login. -/
def Known (env : Surroundings) (T : Trail) (i : ℕ) (email : Text) : Precheck → Prop
  | .proceed u hash _ => T.Addressed env i u email ∧ T.Stores i u hash
  | _ => True

/-- What is known after a guess. -/
def Guessed (env : Surroundings) (T : Trail) (i : ℕ) (k : Uuid) (code : Text) : CodeOutcome → Prop
  | .matched u _ => T.Answers env i k u code ∧ Challenged env T k u
  | _ => True

/-- A guess that matches is the code of the challenge that is seen. -/
theorem guessed_of_act {k : Uuid} {code : Text} {now : Instant} {db : Db} (hseen : T.seen db)
    (h : Reasons env T db.auth) : Guessed env T i k code
      ((AuthTokens.Query.verifyCode k .loginCode (codeHash env.toEnv k (trim code)) maxCodeAttempts
        now).act (db.auth.tokens.row i k)).1 := by
  rcases hrow : db.auth.tokens.row i k with _ | token
  · exact trivial
  · simp only [AuthTokens.Query.act]
    split
    · rename_i hopen
      dsimp only
      split
      · rename_i hhash
        exact ⟨⟨db, token, hseen, hrow, hopen.1, rfl, hhash⟩, h.challenges.row hrow hopen.1⟩
      · exact trivial
    · exact trivial

section Told

variable {J : Told Db Query} (hJ : Tells env T i J)
include hJ

theorem Tells.auth {t s : Marketplace.Db} (h : (J.part Db.auth .service).look t s) :
    ∃ db, T.seen db ∧ Reasons env T db.auth ∧ db.auth = s := by
  obtain ⟨t', db, -, rfl, hdb⟩ := h
  exact ⟨db, (hJ.look hdb).1, (hJ.look hdb).2, rfl⟩

theorem informed_loginPrecheck {email : Text} {now : Instant} :
    (loginPrecheck env.toEnv email now).run.InformedTo i (J.part Db.auth .service) (Reasoned env T)
      (Action.OnOk (Known env T i email)) := by
  refine Action.informed_look fun t s hs => ?_
  obtain ⟨db, hseen, -, rfl⟩ := hJ.auth hs
  cases hfound : Users.findByEmail env.toEnv i (trim email) db.auth.users with
  | none => exact fun _ => trivial
  | some found =>
    obtain ⟨u, user⟩ := found
    dsimp only
    split
    · exact fun _ => trivial
    · rename_i hactive
      refine Action.informed_look fun t s hs => ?_
      obtain ⟨db', hseen', -, rfl⟩ := hJ.auth hs
      cases hcredential : db'.auth.credentials.row i u with
      | none => exact fun _ => trivial
      | some credential =>
        dsimp only
        split
        · exact fun _ => trivial
        · have hknown : Known env T i email
              (.proceed u credential.passwordHash credential.generation) :=
            ⟨⟨db, user, hseen, hfound, by simpa using hactive⟩,
              ⟨db', credential, hseen', hcredential, rfl⟩⟩
          split
          · exact Action.informedTo_andThen (fun _ => trivial) (Action.informed_onOk
              (Prog.informed_of_each (Action.each_andThen (fun _ => trivial) fun t =>
                Action.each_andThen (each_onCredential trivial) fun _ => trivial)))
              fun _ _ _ => hknown
          · exact fun _ => hknown

theorem informed_login {email password : Text} {device : Option DeviceCookie}
    (h : T.serves i (.service (.login email password device))) :
    (login env.toEnv i email password device).run.Informed i (J.part Db.auth .service)
      (Reasoned env T) := by
  refine Action.informed_look fun t s hs => ?_
  obtain ⟨db, hseen, -, rfl⟩ := hJ.auth hs
  refine Action.informedTo_andThen (fun _ => trivial) (informed_loginPrecheck hJ) fun precheck hknown => ?_
  cases precheck with
  | noAccount | inactive | noPassword | locked => exact fun _ => trivial
  | proceed u hash generation =>
    obtain ⟨hfound, db', credential, hseen', hcredential, rfl⟩ := hknown
    dsimp only
    split
    · exact Prog.informed_of_each (each_refuseLogin fun _ => trivial)
    · rename_i hverify
      have hpassword : T.Verifies env i u password :=
        ⟨db', credential, hseen', hcredential, by simpa using hverify⟩
      refine Prog.informed_of_each (Action.each_andThen
        (reasoned_completeLogin (fun hremembered => ?_) (.password h hfound hpassword)) fun _ =>
          Action.each_andThen (each_upgradeHashIfNeeded trivial) fun _ => trivial)
      rcases device with _ | value
      · cases hremembered
      · exact .remembered h hfound hpassword ⟨db, hseen, hremembered⟩

theorem informed_verifyCode {k : Uuid} {code : Text} {now : Instant} :
    (verifyCode .auto k .loginCode (codeHash env.toEnv k (trim code)) maxCodeAttempts now).run.InformedTo
      i (J.part Db.auth .service) (Reasoned env T) (Action.OnOk (Guessed env T i k code)) := by
  refine Action.informed_look fun t s _ => ?_
  split
  · refine fun _ => ⟨trivial, fun b hb => ?_⟩
    obtain ⟨db, db', hseen, hreasons, hrun⟩ := hJ.answer hb
    obtain ⟨auth, hauth, -⟩ := run_service hrun
    obtain ⟨tokens, htokens, -⟩ := Query.run_tokens hauth
    obtain ⟨-, rfl, -⟩ := Table.modify_cases htokens
    exact guessed_of_act hseen hreasons
  · exact fun _ => trivial

theorem informed_verifyLoginCode {k : Uuid} {code : Text}
    (h : T.serves i (.service (.verifyLoginCode k code))) :
    (verifyLoginCode env.toEnv i k code).run.Informed i (J.part Db.auth .service)
      (Reasoned env T) := by
  refine Action.informed_look fun _ _ _ => Action.informed_look fun _ _ _ => ?_
  refine Action.informedTo_andThen (fun _ => trivial) (informed_verifyCode hJ) fun outcome hguessed => ?_
  cases outcome with
  | wrong | gone => exact fun _ => trivial
  | matched u g =>
    obtain ⟨hcode, hk⟩ := hguessed
    exact Prog.informed_of_each
      (Action.each_andThen (reasoned_completeLoginCode (.code h hk hcode)) fun _ => trivial)

theorem informed_resendLoginCode {k : Uuid} (h : T.serves i (.service (.resendLoginCode k))) :
    (resendLoginCode env.toEnv i k).run.Informed i (J.part Db.auth .service) (Reasoned env T) := by
  refine Action.informed_look fun _ _ _ => Action.informed_look fun t s hs => ?_
  obtain ⟨db, -, hreasons, rfl⟩ := hJ.auth hs
  split
  · exact fun _ => trivial
  · rename_i token htoken
    obtain ⟨hrow, hopen⟩ := Option.filter_eq_some_iff.mp htoken
    rw [Bool.and_eq_true, decide_eq_true_eq] at hopen
    have hk : Challenged env T k token.userId := hreasons.challenges.row hrow hopen.1
    refine Prog.informed_of_each (Action.each_andThen (fun _ => trivial) fun user => ?_)
    rcases user with _ | user
    · exact trivial
    · refine Marketplace.each_inTransaction trivial trivial fun begun => ?_
      rcases user.email with _ | address
      · exact trivial
      · exact Action.each_andThen (each_issueChallenge (issues_loginCode (.resent h hk))) fun _ => trivial

theorem informed_changePassword {session : Uuid} {password new : Text}
    (h : T.serves i (.service (.changePassword u session password new))) :
    (changePassword env.toEnv i u session password new).run.Informed i (J.part Db.auth .service)
      (Reasoned env T) := by
  refine Action.informed_look fun _ _ _ => Action.informed_look fun _ s _ => ?_
  cases s.users.row i u with
  | none => exact fun _ => trivial
  | some user =>
    refine Action.informed_look fun t s hs => ?_
    obtain ⟨db, hseen, -, rfl⟩ := hJ.auth hs
    cases hcredential : db.auth.credentials.row i u with
    | none => exact fun _ => trivial
    | some credential =>
      dsimp only
      split
      · exact fun _ => trivial
      · rename_i hverify
        rcases checkPolicy env.toEnv new (user.email.getD []) with _ | refusal
        · dsimp only
          split
          · exact fun _ => trivial
          · exact Prog.informed_of_each (reasoned_swapPassword (.changed h
              ⟨db, credential, hseen, hcredential, by simpa using hverify⟩))
        · exact fun _ => trivial

/-- **Every request of the service opens sessions, and makes challenges, for a reason.** -/
theorem informed_serveService {request : Marketplace.Request} (h : T.serves i (.service request)) :
    (Marketplace.serve env.toEnv i request).run.Informed i (J.part Db.auth .service)
      (Reasoned env T) := by
  cases request with
  | login email password device => exact informed_login hJ h
  | verifyLoginCode challengeId code => exact informed_verifyLoginCode hJ h
  | resendLoginCode challengeId => exact informed_resendLoginCode hJ h
  | changePassword userId session current new => exact informed_changePassword hJ h
  | requestPasswordReset email =>
    exact Prog.informed_of_each (each_requestPasswordReset trivial trivial fun _ =>
      issues_of_ne (by decide))
  | confirmPasswordReset token new =>
    exact Prog.informed_of_each (each_confirmPasswordReset trivial trivial (fun _ _ => trivial)
      (fun _ => trivial) (fun _ _ _ => trivial) fun _ _ => trivial)
  | requestEmailVerification userId newEmail =>
    exact Prog.informed_of_each (each_requestEmailVerification trivial trivial
      (issues_of_ne (by decide)))
  | confirmEmail userId challengeId code email =>
    exact Prog.informed_of_each (each_confirmEmail trivial trivial (fun _ => trivial)
      (fun _ => trivial) fun _ => trivial)
  | logout sessionId =>
    exact Prog.informed_of_each (each_logout trivial trivial fun _ => trivial)
  | logoutAll userId =>
    exact Prog.informed_of_each (each_logoutAll trivial trivial fun _ _ => trivial)

/-! ### Registering, and signing in with a provider -/

omit hJ in
theorem informed_ofService {p : Serving α} {ψ : Except AppError α → Prop}
    (h : p.run.InformedTo i (J.part Db.auth .service) (Reasoned env T) ψ) :
    (ofService p).run.InformedTo i J (Query.Reasoned env T) ψ :=
  h.embed fun _ hq => hq

theorem informed_insertUser {email : Option Text} {displayName : Text} {accountType : AccountType}
    {first : Option (Provider × Text)} :
    (insertUser email displayName accountType first).run.InformedTo i J (Query.Reasoned env T)
      (Action.OnOk fun p => T.New p.1) := by
  refine Action.informed_query trivial fun inserted hb => ?_
  obtain ⟨db, db', hseen, -, hrun⟩ := hJ.answer hb
  rcases run_insertUser hrun with ⟨⟨e, rfl⟩, -⟩ | ⟨rfl, -⟩
  · exact fun _ => trivial
  · exact fun _ => ⟨db, hseen, rfl⟩

theorem informed_insertArrival {email : Option Text} {displayName : Text} {accountType : AccountType}
    {first : Provider × Text} :
    (insertArrival email displayName accountType first).run.InformedTo i J (Query.Reasoned env T)
      (Action.OnOk fun p => T.New p.1) := by
  refine Prog.InformedTo.bind (informed_insertUser hJ) fun inserted hinserted => ?_
  rcases inserted with e | p
  · cases e <;> exact fun _ => trivial
  · exact fun _ => hinserted

theorem informed_register {email displayName password : Text} {accountType : AccountType}
    (h : T.serves i (.register email displayName password accountType)) :
    (register env i email displayName password accountType).run.Informed i J
      (Query.Reasoned env T) := by
  unfold register
  dsimp only
  split_ifs
  · exact fun _ => trivial
  · exact fun _ => trivial
  · rcases checkPolicy env.toEnv password (trim email) with _ | refusal
    · refine Action.informed_look fun _ _ _ => Action.informed_transaction trivial trivial ?_
      refine Action.informedTo_andThen (fun _ => trivial) (informed_insertUser hJ) fun p hnew => ?_
      refine Prog.informed_of_each (Action.each_andThen ?_ fun _ => Action.each_andThen
        (Prog.each_embed (each_issueChallenge (issues_loginCode (.registered h hnew)))) fun _ => trivial)
      refine Action.each_andThen ⟨trivial, fun _ => trivial⟩ fun inserted => ?_
      cases inserted <;> exact trivial
    · exact fun _ => trivial

section Provider

variable {provider : Provider} {idToken : Text} {side : Option AccountType} {email name : Option Text}
  {identity : VerifiedIdentity}

theorem informed_arrive {now : Instant}
    (h : T.serves i (.signInWithProvider provider idToken side email name))
    (hverified : env.verifyToken i idToken provider = .ok identity) :
    (arrive provider identity side email name now).run.InformedTo i J (Query.Reasoned env T)
      (Action.OnOk fun p => Opened env T i p.1) := by
  unfold arrive
  rcases side with _ | accountType
  · exact fun _ => trivial
  · refine Action.informedTo_andThen (fun _ => trivial) (informed_insertArrival hJ) fun p hnew => ?_
    exact Action.informedTo_andThen (fun _ => trivial) (Action.informed_onOk
      (Prog.informed_of_each (each_insertIdentity fun _ _ _ _ => trivial)))
      fun _ _ _ => Opened.arrived h hverified hnew

theorem informed_resolve {now : Instant}
    (h : T.serves i (.signInWithProvider provider idToken side email name))
    (hverified : env.verifyToken i idToken provider = .ok identity) :
    (resolve provider identity side email name now).run.InformedTo i J (Query.Reasoned env T)
      (Action.OnOk fun p => Opened env T i p.1) := by
  refine Action.informed_look fun t db hdb => ?_
  split
  · rename_i id link hfound
    obtain ⟨k, hk, hrow⟩ := Option.bind_eq_some_iff.mp hfound
    obtain ⟨link, hrow, he⟩ := Option.map_eq_some_iff.mp hrow
    cases he
    obtain ⟨link', hrow', hkey⟩ := Table.mem_scan.mp (List.mem_of_mem_head? hk)
    obtain rfl := Option.some.inj (hrow.symm.trans hrow')
    rw [Bool.and_eq_true, decide_eq_true_eq, decide_eq_true_eq] at hkey
    have hopened : Opened env T i link.userId := .linked h hverified
      ⟨db, id, link, (hJ.look hdb).1, hrow, Prod.ext hkey.1 hkey.2, rfl⟩
    refine Action.informed_look fun _ _ _ => ?_
    split
    · exact fun _ => trivial
    · split
      · exact fun _ => trivial
      · exact Action.informed_query trivial fun _ _ _ => hopened
  · exact informed_arrive hJ h hverified

theorem informed_signInWithProvider
    (h : T.serves i (.signInWithProvider provider idToken side email name)) :
    (signInWithProvider env i provider idToken side email name).run.Informed i J
      (Query.Reasoned env T) := by
  refine Action.informed_look fun _ _ _ => ?_
  rw [verified]
  rcases hverified : env.verifyToken i idToken provider with e | identity
  · exact fun _ => trivial
  · refine Action.informed_look fun _ _ _ => Action.informed_transaction trivial trivial ?_
    refine Action.informedTo_andThen (fun _ => trivial) (informed_resolve hJ h hverified) fun p hopened => ?_
    refine Prog.informed_of_each (Action.each_andThen ?_ fun _ => Action.each_andThen
      (Prog.each_embed (reasoned_issueSession hopened)) fun _ => trivial)
    rw [markVouched]
    split
    · exact Prog.each_embed (each_markEmailVerified trivial)
    · exact trivial

end Provider

omit hJ in
theorem informed_linkProvider {provider : Provider} {idToken : Text} :
    (linkProvider env i u provider idToken).run.Informed i J (Query.Reasoned env T) := by
  refine Prog.informed_of_each ?_
  unfold linkProvider verified
  rcases env.verifyToken i idToken provider with e | identity
  · exact trivial
  · refine each_inTransaction trivial trivial fun begun => ?_
    refine Action.each_andThen (fun _ => trivial) fun already => ?_
    split_ifs
    · exact trivial
    · refine Action.each_andThen (fun _ => trivial) fun existing => ?_
      rcases existing with _ | link
      · exact Action.each_andThen (each_insertIdentity fun _ _ _ _ => trivial) fun _ => trivial
      · exact trivial

/-- **Every request opens sessions, and makes challenges, for a reason.** -/
theorem informed_serve {request : Request} (h : T.serves i request) :
    (serve env i request).run.Informed i J (Query.Reasoned env T) := by
  cases request with
  | service request =>
    exact Action.informed_andThen (informed_ofService (informed_serveService hJ h)) fun _ _ => trivial
  | authenticate rawToken =>
    exact Prog.informed_of_each (each_authenticate fun _ _ _ _ => trivial)
  | register email displayName password accountType => exact informed_register hJ h
  | signInWithProvider provider idToken side email name =>
    exact informed_signInWithProvider hJ h
  | linkProvider userId provider idToken => exact informed_linkProvider

end Told

/-! ### Whole runs -/

section Runs

variable {C : Proviso ℕ Db Query} {db₀ : Db}
  {c : Config ℕ Db Request (Except AppError Response) Query}

/-- The run from `db₀` to `c`. -/
def trail (env : Surroundings) (C : Proviso ℕ Db Query) (db₀ : Db)
    (c : Config ℕ Db Request (Except AppError Response) Query) : Trail where
  start := db₀
  serves := Serves (accounts env) C (.initial db₀) c
  seen := Passed (accounts env) C (.initial db₀) c

theorem tells_run : Tells env (trail env C db₀ c) i (told (accounts env) C (.initial db₀) c
    (fun db => Reasons env (trail env C db₀ c) db.auth) i) where
  look h := ⟨h.2.passed, h.1⟩
  answer h := by
    obtain ⟨s, s', hreasons, hseen, hrun⟩ := h
    exact ⟨s, s', hseen, hreasons, hrun⟩

theorem reasons_of_reachable (h : Reachable (accounts env) C (.initial db₀) c) :
    Reasons env (trail env C db₀ c) c.db.auth := by
  refine invariant_informed (I := fun db => Reasons env (trail env C db₀ c) db.auth)
    (fun i request hserves => informed_serve tells_run hserves) trivial
    (fun q i s b s' hs hq hrun => hs.query hq hrun) (fun s n hs => ⟨hs.sessions, hs.challenges⟩)
    ⟨fun k s hs => ?_, fun k token htoken _ => ?_⟩ h
  · exact .before hs rfl
  · exact .before htoken rfl

/-- **No session without proof**: in every interleaving, a session that is there, published or not, has
been opened by the owner of its account in this run, unless it has been there from the start. A
password alone has not been enough. -/
theorem session_opened (h : Reachable (accounts env) C (.initial db₀) c) {k : Uuid} {s : Session}
    (hs : (c.db.auth.sessions.slot k).Version s) : Opened env (trail env C db₀ c) k s.userId :=
  (reasons_of_reachable h).sessions k s hs

end Runs

/-- A password, and the code that was mailed for it. -/
theorem session_opened_byCode : ∃ c s,
    Reachable (accounts vouching) anyQuery (.initial { auth := oneAccount }) c ∧
      (c.db.auth.sessions.slot 3).committed = some s ∧
      Opened vouching (trail vouching anyQuery { auth := oneAccount } c) 3 s.userId := by
  obtain ⟨c, hc, hP⟩ := exists_of_exec (accounts vouching)
    (.arrive 1 (.service signInRequest) :: List.replicate 13 (.run 1) ++
      .arrive 3 (.service (.verifyLoginCode 1 (generateCode .plain 1))) :: List.replicate 11 (.run 3))
    (.initial { auth := oneAccount }) (fun c => (c.db.auth.sessions.slot 3).committed.isSome)
    (by decide +kernel)
  obtain ⟨s, hs⟩ := Option.isSome_iff_exists.mp hP
  exact ⟨c, s, hc, hs, session_opened hc (Or.inl hs)⟩

end Marketplace.Accounts
