import Marketplace.Auth.Service

/-!
# Which queries each request issues

For each fragment of the service, the queries it can issue: a condition on queries
that holds of those holds of the whole program (`ReadCommitted.Prog.Each`). A
result that only depends on which queries a request issues cites the lemma of this
file about the request, and does not look at its program.
-/

namespace Marketplace

open ReadCommitted

variable {φ : {β : Type} → Query β → Prop} {α β : Type} {env : Env} {i : ℕ}

/-! ### Statements -/

theorem each_inTransaction {body : Instant → Serving α} (hc : φ .commit) (hr : φ .rollback)
    (h : ∀ now, (body now).run.Each φ) : (inTransaction body).run.Each φ :=
  Action.each_andThen (fun _ => trivial) fun now => Action.each_transaction hc hr (h now)

theorem each_inDroppedTransaction {body : Instant → Serving α} (hr : φ .rollback)
    (h : ∀ now, (body now).run.Each φ) : (inDroppedTransaction body).run.Each φ :=
  Action.each_andThen (fun _ => trivial) fun now => Action.each_transaction hr hr (h now)

theorem each_onCredential {m : Mode} {q : Passwords.Query (Option β)}
    (h : φ (.credentials m q)) : (onCredential m q).run.Each φ := by
  refine Action.each_andThen (fun _ => trivial) fun hit => ?_
  cases hit
  · exact trivial
  · exact ⟨h, fun _ => trivial⟩

theorem each_markEmailVerified {userId : Uuid} {now : Instant}
    (h : φ (.users (.markEmailVerified userId now))) :
    (markEmailVerified userId now).run.Each φ := by
  refine Action.each_andThen (fun _ => trivial) fun hit => ?_
  cases hit
  · exact trivial
  · exact ⟨h, fun _ => trivial⟩

theorem each_verifyCode {m : Mode} {k : Uuid} {purpose : Purpose} {hash : Digest}
    {maxAttempts : ℕ} {now : Instant} (h : φ (.tokens m (.verifyCode k purpose hash maxAttempts now))) :
    (verifyCode m k purpose hash maxAttempts now).run.Each φ := by
  refine Action.each_andThen (fun _ => trivial) fun hit => ?_
  cases hit
  · exact trivial
  · exact ⟨h, fun _ => trivial⟩

theorem each_consumeLink {hash : Digest} {purpose : Purpose} {now : Instant}
    (h : ∀ k, φ (.tokens .tx (.consumeLink k hash purpose now))) :
    (consumeLink hash purpose now).run.Each φ := by
  refine Action.each_andThen (fun _ => trivial) fun hit => ?_
  cases hit with
  | none => exact trivial
  | some k => exact ⟨h k, fun _ => trivial⟩

theorem each_issue {id userId : Uuid} {purpose : Purpose} {hash : Digest} {ttlSecs : ℕ}
    {authorisedBy : Option ℕ} {now : Instant}
    (hc : ∀ k, φ (.tokens .tx (.consumeOpen k userId purpose now)))
    (hi : φ (.tokens .tx (.insert id
      { userId := userId, purpose := purpose, tokenHash := hash, expiresAt := now + ttlSecs
        authorisedBy := authorisedBy }))) :
    (issue id userId purpose hash ttlSecs authorisedBy now).run.Each φ := by
  refine Action.each_andThen (fun _ => trivial) fun opened => ?_
  refine Action.each_andThen (Action.each_ofProg (Prog.each_countEach fun k =>
    ⟨hc k, fun _ => trivial⟩)) fun _ => ?_
  refine Action.each_andThen ⟨hi, fun _ => trivial⟩ fun inserted => ?_
  cases inserted <;> exact trivial

theorem each_enqueueEmail {id : Uuid} {email : Email} (h : φ (.enqueue id email)) :
    (enqueueEmail id email).run.Each φ := by
  refine Action.each_andThen ⟨h, fun _ => trivial⟩ fun inserted => ?_
  cases inserted <;> exact trivial

theorem each_revokeSession {id : Uuid} {reason : RevocationReason} {now : Instant}
    (h : φ (.sessions (.revoke id reason now))) : (revokeSession id reason now).run.Each φ := by
  refine Action.each_andThen (fun _ => trivial) fun hit => ?_
  cases hit
  · exact trivial
  · exact ⟨h, fun _ => trivial⟩

theorem each_revokeAllForUser {userId : Uuid} {reason : RevocationReason} {except : Option Uuid}
    {now : Instant} (h : ∀ k, φ (.sessions (.revokeOf k userId reason except now))) :
    (revokeAllForUser userId reason except now).run.Each φ :=
  Action.each_andThen (fun _ => trivial) fun _ =>
    Action.each_ofProg (Prog.each_countEach fun k => ⟨h k, fun _ => trivial⟩)

theorem each_issueSession {userId : Uuid} {begun now : Instant} {authorisedBy : Option ℕ}
    (h : ∀ s, s.userId = userId → s.revoked = none → s.authorisedBy = authorisedBy →
      φ (.sessions (.insert i s))) :
    (issueSession env i userId begun now authorisedBy).run.Each φ := by
  refine Action.each_andThen ⟨h _ rfl rfl rfl, fun _ => trivial⟩ fun inserted => ?_
  cases inserted <;> exact trivial

/-- The queries that issue a token with its message. -/
structure Issues (φ : {β : Type} → Query β → Prop) (i : ℕ) (userId : Uuid) (purpose : Purpose)
    (authorisedBy : Option ℕ) : Prop where
  /-- Open tokens are consumed. -/
  consume : ∀ k now, φ (.tokens .tx (.consumeOpen k userId purpose now))
  /-- The new one is inserted. -/
  insert : ∀ hash expiresAt, φ (.tokens .tx (.insert i
    { userId := userId, purpose := purpose, tokenHash := hash, expiresAt := expiresAt
      authorisedBy := authorisedBy }))
  /-- Its message is queued. -/
  enqueue : ∀ email, φ (.enqueue i email)

theorem each_issueChallenge {userId : Uuid} {email : Text} {authorisedBy : Option ℕ}
    {now : Instant} (h : Issues φ i userId .loginCode authorisedBy) :
    (issueChallenge env i userId email authorisedBy now).run.Each φ :=
  Action.each_andThen (each_issue (fun k => h.consume k now) (h.insert _ _)) fun _ =>
    Action.each_andThen (each_enqueueEmail (h.enqueue _)) fun _ => trivial

theorem each_revalidate {userId : Uuid} {verifiedHash : Text} {now : Instant}
    (h : φ (.credentials .tx (.findForUpdate userId))) :
    (revalidate userId verifiedHash now).run.Each φ := by
  refine Action.each_andThen (each_onCredential h) fun current => ?_
  refine Action.each_andThen (fun _ => trivial) fun user => ?_
  rcases current with _ | current <;> rcases user with _ | user
  · exact trivial
  · exact trivial
  · exact trivial
  · dsimp only
    split_ifs <;> exact trivial

/-! ### Requests -/

theorem each_loginPrecheck {email : Text} {now : Instant}
    (h : ∀ u t, φ (.credentials .auto (.clearFailures u .elapsed t))) :
    (loginPrecheck env email now).run.Each φ := by
  refine Action.each_andThen (fun _ => trivial) fun found => ?_
  rcases found with _ | ⟨userId, user⟩
  · exact trivial
  · dsimp only
    split_ifs
    · exact trivial
    · refine Action.each_andThen (fun _ => trivial) fun credential => ?_
      rcases credential with _ | credential
      · exact trivial
      · dsimp only
        split_ifs
        · exact trivial
        · exact Action.each_andThen (Action.each_andThen (fun _ => trivial) fun t =>
            Action.each_andThen (each_onCredential (h _ t)) fun _ => trivial) fun _ => trivial
        · exact trivial

theorem each_refuseLogin {userId : Uuid}
    (h : ∀ now, φ (.credentials .auto (.recordFailure userId now))) :
    (refuseLogin userId).run.Each φ := by
  refine Action.each_andThen (fun _ => trivial) fun now => ?_
  refine Action.each_andThen (each_onCredential (h now)) fun after => ?_
  cases after <;> exact trivial

theorem each_upgradeHashIfNeeded {userId : Uuid} {verifiedHash password : Text}
    (h : φ (.credentials .auto (.upgradeHash userId verifiedHash (env.hash i password)))) :
    (upgradeHashIfNeeded env i userId verifiedHash password).run.Each φ := by
  unfold upgradeHashIfNeeded
  split_ifs
  · exact Action.each_andThen (each_onCredential h) fun _ => trivial
  · exact trivial

theorem each_completeLogin {userId : Uuid} {verifiedHash : Text} {generation : ℕ}
    {remembered : Bool} {now : Instant} (hc : φ .commit) (hr : φ .rollback)
    (hlock : φ (.credentials .tx (.findForUpdate userId)))
    (hclear : ∀ t, φ (.credentials .tx (.clearFailures userId .verified t)))
    (hsession : ∀ s, s.userId = userId → s.revoked = none → s.authorisedBy = some generation →
      φ (.sessions (.insert i s)))
    (hissue : Issues φ i userId .loginCode (some generation)) :
    (completeLogin env i userId verifiedHash generation remembered now).run.Each φ := by
  refine each_inTransaction hc hr fun begun => ?_
  refine Action.each_andThen (fun _ => trivial) fun current => ?_
  refine Action.each_andThen (each_revalidate hlock) fun user => ?_
  refine Action.each_andThen (each_onCredential (hclear begun)) fun _ => ?_
  split_ifs
  · exact Action.each_andThen (each_issueSession hsession) fun _ => trivial
  · rcases user.email with _ | address
    · exact trivial
    · exact Action.each_andThen (each_issueChallenge hissue) fun _ => trivial

theorem each_login {email password : Text} {device : Option DeviceCookie} (hc : φ .commit)
    (hr : φ .rollback)
    (helapsed : ∀ u t, φ (.credentials .auto (.clearFailures u .elapsed t)))
    (hfailed : ∀ u t, φ (.credentials .auto (.recordFailure u t)))
    (hlock : ∀ u, φ (.credentials .tx (.findForUpdate u)))
    (hclear : ∀ u t, φ (.credentials .tx (.clearFailures u .verified t)))
    (hsession : ∀ s, s.revoked = none → φ (.sessions (.insert i s)))
    (hissue : ∀ u g, Issues φ i u .loginCode g)
    (hupgrade : ∀ u h, φ (.credentials .auto (.upgradeHash u h (env.hash i password)))) :
    (login env i email password device).run.Each φ := by
  refine Action.each_andThen (fun _ => trivial) fun now => ?_
  refine Action.each_andThen (each_loginPrecheck helapsed) fun precheck => ?_
  cases precheck with
  | proceed userId verifiedHash generation =>
    dsimp only
    split_ifs
    · exact each_refuseLogin (hfailed userId)
    · refine Action.each_andThen (each_completeLogin hc hr (hlock _) (hclear _)
        (fun s _ hs _ => hsession s hs) (hissue _ _)) fun _ => ?_
      exact Action.each_andThen (each_upgradeHashIfNeeded (hupgrade _ _)) fun _ => trivial
  | noAccount => exact trivial
  | inactive userId => exact trivial
  | noPassword userId => exact trivial
  | locked userId => exact trivial

theorem each_verifyLoginCode {challengeId : Uuid} {code : Text} (hc : φ .commit)
    (hr : φ .rollback)
    (hguess : ∀ t, φ (.tokens .auto (.verifyCode challengeId .loginCode
      (codeHash env challengeId (trim code)) maxCodeAttempts t)))
    (hmark : ∀ u t, φ (.users (.markEmailVerified u t)))
    (hsession : ∀ s, s.revoked = none → φ (.sessions (.insert i s))) :
    (verifyLoginCode env i challengeId code).run.Each φ := by
  refine Action.each_andThen (fun _ => trivial) fun now => ?_
  refine Action.each_andThen (fun _ => trivial) fun spentAt => ?_
  refine Action.each_andThen (each_verifyCode (hguess spentAt)) fun outcome => ?_
  cases outcome with
  | wrong => exact trivial
  | gone => exact trivial
  | matched userId authorisedBy =>
    refine Action.each_andThen (each_inTransaction hc hr fun begun => ?_) fun _ => trivial
    refine Action.each_andThen (fun _ => trivial) fun user => ?_
    rcases user with _ | user
    · exact trivial
    · dsimp only
      split_ifs
      · exact trivial
      · refine Action.each_andThen (each_markEmailVerified (hmark userId begun)) fun _ => ?_
        refine Action.each_andThen (fun _ => trivial) fun user => ?_
        rcases user with _ | user
        · exact trivial
        · exact each_issueSession fun s _ hs _ => hsession s hs

theorem each_resendLoginCode {challengeId : Uuid} (hc : φ .commit) (hr : φ .rollback)
    (hissue : ∀ u g, Issues φ i u .loginCode g) :
    (resendLoginCode env i challengeId).run.Each φ := by
  refine Action.each_andThen (fun _ => trivial) fun asked => ?_
  refine Action.each_andThen (fun _ => trivial) fun token => ?_
  rcases token with _ | token
  · exact trivial
  · refine Action.each_andThen (fun _ => trivial) fun user => ?_
    rcases user with _ | user
    · exact trivial
    · refine each_inTransaction hc hr fun begun => ?_
      rcases user.email with _ | address
      · exact trivial
      · exact Action.each_andThen (each_issueChallenge (hissue _ _)) fun _ => trivial

theorem each_requestPasswordReset {email : Text} (hc : φ .commit) (hr : φ .rollback)
    (hissue : ∀ u, Issues φ i u .passwordReset none) :
    (requestPasswordReset env i email).run.Each φ := by
  unfold requestPasswordReset
  split_ifs
  · exact trivial
  · refine Action.each_andThen (fun _ => trivial) fun found => ?_
    rcases found with _ | ⟨userId, user⟩
    · exact trivial
    · dsimp only
      split_ifs
      · exact trivial
      · rcases user.email with _ | address
        · exact each_inDroppedTransaction hr fun begun =>
            Action.each_andThen (each_issue (fun k => (hissue userId).consume k begun)
              ((hissue userId).insert _ _)) fun _ => trivial
        · exact each_inTransaction hc hr fun begun =>
            Action.each_andThen (each_issue (fun k => (hissue userId).consume k begun)
              ((hissue userId).insert _ _)) fun _ =>
              Action.each_andThen (each_enqueueEmail ((hissue userId).enqueue _)) fun _ => trivial

theorem each_confirmPasswordReset {token newPassword : Text} (hc : φ .commit) (hr : φ .rollback)
    (hspend : ∀ k t, φ (.tokens .tx (.consumeLink k (env.digestToken (trim token))
      .passwordReset t)))
    (hset : ∀ u, φ (.credentials .tx (.setHash u (env.hash i newPassword))))
    (hrevoke : ∀ k u t, φ (.sessions (.revokeOf k u .passwordChange none t)))
    (hmark : ∀ u t, φ (.users (.markEmailVerified u t))) :
    (confirmPasswordReset env i token newPassword).run.Each φ := by
  refine Action.each_andThen (fun _ => trivial) fun asked => ?_
  refine Action.each_andThen (fun _ => trivial) fun owner => ?_
  rcases owner with _ | userId
  · exact trivial
  · refine Action.each_andThen (fun _ => trivial) fun user => ?_
    rcases user with _ | user
    · exact trivial
    · dsimp only
      split_ifs
      · exact trivial
      · rcases checkPolicy env newPassword (user.email.getD []) with _ | refusal
        · refine each_inTransaction hc hr fun begun => ?_
          refine Action.each_andThen (each_consumeLink fun k => hspend k begun) fun spent => ?_
          rcases spent with _ | owner
          · exact trivial
          · refine Action.each_andThen ⟨hset userId, fun _ => trivial⟩ fun _ => ?_
            refine Action.each_andThen (each_revokeAllForUser fun k =>
              hrevoke k userId begun) fun _ => ?_
            exact Action.each_andThen (each_markEmailVerified (hmark userId begun)) fun _ => trivial
        · exact trivial

theorem each_revalidateForChange {userId : Uuid} {verifiedHash : Text} {now : Instant}
    (h : φ (.credentials .tx (.findForUpdate userId))) :
    (revalidateForChange userId verifiedHash now).run.Each φ := by
  refine Prog.each_bind (each_revalidate h) fun r => ?_
  rcases r with e | user
  · cases e <;> exact trivial
  · exact trivial

theorem each_swapPassword {userId sessionId : Uuid} {verifiedHash newHash : Text}
    {generation : ℕ} {now : Instant} (hc : φ .commit) (hr : φ .rollback)
    (hlock : φ (.credentials .tx (.findForUpdate userId)))
    (hswap : φ (.credentials .tx (.replaceHash userId verifiedHash newHash)))
    (hrevoke : ∀ k t, φ (.sessions (.revokeOf k userId .passwordChange (some sessionId) t)))
    (hrotate : ∀ t, φ (.sessions (.revoke sessionId .rotation t)))
    (hsession : ∀ s, s.revoked = none → φ (.sessions (.insert i s))) :
    (swapPassword env i userId sessionId verifiedHash newHash generation now).run.Each φ := by
  refine each_inTransaction hc hr fun begun => ?_
  refine Action.each_andThen (fun _ => trivial) fun current => ?_
  refine Action.each_andThen (each_revalidateForChange hlock) fun _ => ?_
  refine Action.each_andThen (each_onCredential hswap) fun replaced => ?_
  rcases replaced with _ | done
  · exact trivial
  · refine Action.each_andThen (each_revokeAllForUser fun k => hrevoke k begun) fun _ => ?_
    refine Action.each_andThen (each_revokeSession (hrotate begun)) fun _ => ?_
    exact Action.each_andThen (each_issueSession fun s _ hs _ => hsession s hs) fun _ => trivial

theorem each_changePassword {userId sessionId : Uuid} {current new : Text} (hc : φ .commit)
    (hr : φ .rollback) (hlock : φ (.credentials .tx (.findForUpdate userId)))
    (hswap : ∀ h, φ (.credentials .tx (.replaceHash userId h (env.hash i new))))
    (hrevoke : ∀ k t, φ (.sessions (.revokeOf k userId .passwordChange (some sessionId) t)))
    (hrotate : ∀ t, φ (.sessions (.revoke sessionId .rotation t)))
    (hsession : ∀ s, s.revoked = none → φ (.sessions (.insert i s))) :
    (changePassword env i userId sessionId current new).run.Each φ := by
  refine Action.each_andThen (fun _ => trivial) fun now => ?_
  refine Action.each_andThen (fun _ => trivial) fun user => ?_
  rcases user with _ | user
  · exact trivial
  · refine Action.each_andThen (fun _ => trivial) fun credential => ?_
    rcases credential with _ | credential
    · exact trivial
    · dsimp only
      split
      · exact trivial
      · rcases checkPolicy env new (user.email.getD []) with _ | refusal
        · dsimp only
          split
          · exact trivial
          · exact each_swapPassword hc hr hlock (hswap _) hrevoke hrotate hsession
        · exact trivial

theorem each_requestEmailVerification {userId : Uuid} {newEmail : Option Text} (hc : φ .commit)
    (hr : φ .rollback) (hissue : Issues φ i userId .emailVerify none) :
    (requestEmailVerification env i userId newEmail).run.Each φ := by
  refine each_inTransaction hc hr fun begun => ?_
  refine Action.each_andThen (fun _ => trivial) fun user => ?_
  rcases user with _ | user
  · exact trivial
  · dsimp only
    rcases verificationTarget newEmail user with e | target
    · exact trivial
    · refine Action.each_andThen (each_issue (fun k => hissue.consume k begun)
        (hissue.insert _ _)) fun _ => ?_
      exact Action.each_andThen (each_enqueueEmail (hissue.enqueue _)) fun _ => trivial

theorem each_recordAddress {userId : Uuid} {email : Text} {now : Instant}
    (hmark : φ (.users (.markEmailVerified userId now)))
    (hupdate : φ (.users (.updateEmail userId email now))) :
    (recordAddress userId email now).run.Each φ := by
  refine Action.each_andThen (fun _ => trivial) fun user => ?_
  rcases user with _ | user
  · exact trivial
  · dsimp only
    split
    · refine Action.each_andThen (each_markEmailVerified hmark) fun _ => ?_
      refine Action.each_andThen (fun _ => trivial) fun user => ?_
      cases user <;> exact trivial
    · refine Action.each_andThen ⟨hupdate, fun _ => trivial⟩ fun written => ?_
      cases written <;> exact trivial

theorem each_confirmEmail {userId challengeId : Uuid} {code email : Text} (hc : φ .commit)
    (hr : φ .rollback)
    (hguess : ∀ t, φ (.tokens .tx (.verifyCode challengeId .emailVerify
      (emailVerifyHash env challengeId (trim code) (trim email)) maxCodeAttempts t)))
    (hmark : ∀ t, φ (.users (.markEmailVerified userId t)))
    (hupdate : ∀ t, φ (.users (.updateEmail userId (trim email) t))) :
    (confirmEmail env userId challengeId code email).run.Each φ := by
  refine Action.each_andThen (each_inTransaction hc hr fun begun => ?_) fun result => ?_
  · refine Action.each_andThen (each_verifyCode (hguess begun)) fun outcome => ?_
    cases outcome with
    | wrong => exact trivial
    | gone => exact trivial
    | matched owner _ =>
      dsimp only
      split
      · exact trivial
      · exact each_recordAddress (hmark begun) (hupdate begun)
  · cases result <;> exact trivial

theorem each_logout {sessionId : Uuid} (hc : φ .commit) (hr : φ .rollback)
    (h : ∀ t, φ (.sessions (.revoke sessionId .logout t))) :
    (logout sessionId).run.Each φ :=
  each_inTransaction hc hr fun begun =>
    Action.each_andThen (each_revokeSession (h begun)) fun _ => trivial

theorem each_logoutAll {userId : Uuid} (hc : φ .commit) (hr : φ .rollback)
    (h : ∀ k t, φ (.sessions (.revokeOf k userId .logoutAll none t))) :
    (logoutAll userId).run.Each φ :=
  each_inTransaction hc hr fun begun =>
    Action.each_andThen (each_revokeAllForUser fun k => h k begun) fun _ => trivial

/-! ### The rule for an update of a credential -/

section OnCredential

variable {C : Proviso ℕ Db Query} {G : Contract (authService env) C}
  {post : Except AppError α → Assertion G i} {P : Assertion G i} {m : Mode}
  {q : Passwords.Query (Option β)}

/-- An update of a credential either finds no row to write, and that is known, or runs
its query. -/
theorem safe_onCredential_of_miss (mid : Option β → Assertion G i)
    (hmiss : ∀ db, G.inv db → P.holds db → (q.act i (db.credentials.row i q.key)).2 = none →
      (mid none).holds db)
    (hq : ∀ db b db', G.inv db → P.holds db → C i (.credentials m q) db →
      Query.run env (.credentials m q) i db = some (b, db') →
      G.inv db' ∧ G.guar i db db' ∧ (mid b).holds db') :
    Safe (Assertion.onOk mid fun e => post (.error e)) (onCredential m q).run P := by
  refine Safe.read (fun hit => if hit = true then P else mid none) ?_ fun hit => ?_
  · intro db hs h
    split
    · exact h
    · rename_i hnot
      exact hmiss db hs h (Option.not_isSome_iff_eq_none.mp hnot)
  · cases hit
    · exact Safe.ret fun _ _ h => h
    · exact Safe.query mid hq fun b => Safe.ret fun _ _ h => h

/-- An update of a credential either finds no row to write, or runs its query. -/
theorem safe_onCredential (mid : Option β → Assertion G i)
    (hmiss : ∀ db, G.inv db → P.holds db → (mid none).holds db)
    (hq : ∀ db b db', G.inv db → P.holds db → C i (.credentials m q) db →
      Query.run env (.credentials m q) i db = some (b, db') →
      G.inv db' ∧ G.guar i db db' ∧ (mid b).holds db') :
    Safe (Assertion.onOk mid fun e => post (.error e)) (onCredential m q).run P :=
  safe_onCredential_of_miss mid (fun db hs h _ => hmiss db hs h) hq

end OnCredential

end Marketplace
