import Marketplace.Auth.Federation

/-!
# Whose account a federated sign-in opens

A sign-in that finds its identity opens the account that the identity belongs to, and one that
does not makes an account and the identity in one transaction; so of two first sign-ins with one
identity the unique index refuses the second, and its account with it. A sign-in writes no other
identity, and nothing of an account that is there but that its address is verified
(`Marketplace.Accounts.Own`). The result is `Marketplace.Accounts.sign_in_never_binds`.
-/

namespace Marketplace.Accounts

open ReadCommitted

variable {env : Surroundings} {i : ℕ}

/-! ### Requests that make no account for an identity -/

section Modest

variable {φ : {β : Type} → Query β → Prop} {α : Type}

theorem each_ofService {p : Serving α} (h : ∀ {β : Type} (q : Marketplace.Query β), φ (.service q)) :
    (ofService p).run.Each φ :=
  Prog.each_embed (Prog.each_of_forall fun q => h q)

theorem each_inTransaction {body : Instant → Acting α} (hc : φ (.service .commit))
    (hr : φ (.service .rollback)) (h : ∀ now, (body now).run.Each φ) :
    (inTransaction body).run.Each φ :=
  Action.each_andThen (fun _ => trivial) fun now => Action.each_transaction hc hr (h now)

theorem each_touch {k : Uuid} {idle : Instant} {secs : ℕ}
    (h : ∀ now, φ (.touch k idle secs now)) : (touch k idle secs).run.Each φ := by
  refine Action.each_andThen (fun _ => trivial) fun now => ?_
  refine Action.each_andThen (fun _ => trivial) fun hit => ?_
  cases hit
  · exact trivial
  · exact Action.each_andThen ⟨h now, fun _ => trivial⟩ fun _ => trivial

theorem each_authenticate {rawToken : Text} (h : ∀ k idle secs now, φ (.touch k idle secs now)) :
    (authenticate env rawToken).run.Each φ := by
  refine Action.each_andThen (fun _ => trivial) fun found => ?_
  rcases found with _ | ⟨k, s⟩
  · exact trivial
  · refine Action.each_andThen (fun _ => trivial) fun user => ?_
    rcases user with _ | user
    · exact trivial
    · dsimp only
      split_ifs
      · exact trivial
      · refine Action.each_andThen (fun _ => trivial) fun now => ?_
        exact Action.each_andThen (each_touch (h _ _ _)) fun _ => trivial

theorem each_insertUser {email : Option Text} {displayName : Text} {accountType : AccountType}
    {first : Option (Provider × Text)}
    (h : ∀ user, user.firstIdentity = first → φ (.insertUser user)) :
    (insertUser email displayName accountType first).run.Each φ := by
  refine Action.each_andThen ⟨h _ rfl, fun _ => trivial⟩ fun inserted => ?_
  cases inserted <;> exact trivial

theorem each_insertIdentity {userId : Uuid} {provider : Provider} {identity : VerifiedIdentity}
    {linkedBy : Option Uuid} {now : Instant}
    (h : ∀ r : OauthIdentity, r.userId = userId → r.key = (provider, identity.providerSubject) →
      r.linkedBy = linkedBy → φ (.insertIdentity r)) :
    (insertIdentity userId provider identity linkedBy now).run.Each φ := by
  refine Action.each_andThen ⟨h _ rfl rfl rfl, fun _ => trivial⟩ fun inserted => ?_
  cases inserted <;> exact trivial

theorem each_register {email displayName password : Text} {accountType : AccountType}
    (hservice : ∀ {β : Type} (q : Marketplace.Query β), φ (.service q))
    (huser : ∀ user : User, user.firstIdentity = none → φ (.insertUser user))
    (hcredential : ∀ k hash, φ (.insertCredential k hash)) :
    (register env i email displayName password accountType).run.Each φ := by
  unfold register
  dsimp only
  split_ifs
  · exact trivial
  · exact trivial
  · rcases checkPolicy env.toEnv password (trim email) with _ | refusal
    · refine each_inTransaction (hservice _) (hservice _) fun begun => ?_
      refine Action.each_andThen (each_insertUser huser) fun user => ?_
      refine Action.each_andThen ?_ fun _ => ?_
      · refine Action.each_andThen ⟨hcredential _ _, fun _ => trivial⟩ fun inserted => ?_
        cases inserted <;> exact trivial
      · exact Action.each_andThen (each_ofService hservice) fun _ => trivial
    · exact trivial

theorem each_linkProvider {userId : Uuid} {provider : Provider} {idToken : Text}
    (hservice : ∀ {β : Type} (q : Marketplace.Query β), φ (.service q))
    (hidentity : ∀ (identity : VerifiedIdentity) (r : OauthIdentity),
      env.verifyToken i idToken provider = .ok identity → r.userId = userId →
      r.key = (provider, identity.providerSubject) → r.linkedBy = some userId →
      φ (.insertIdentity r)) :
    (linkProvider env i userId provider idToken).run.Each φ := by
  unfold linkProvider verified
  rcases htoken : env.verifyToken i idToken provider with e | identity
  · exact trivial
  · refine each_inTransaction (hservice _) (hservice _) fun begun => ?_
    refine Action.each_andThen (fun _ => trivial) fun already => ?_
    split_ifs
    · exact trivial
    · refine Action.each_andThen (fun _ => trivial) fun existing => ?_
      rcases existing with _ | link
      · refine Action.each_andThen (each_insertIdentity fun r hu hk hl => ?_) fun _ => trivial
        exact hidentity identity r htoken hu hk hl
      · exact trivial

end Modest

/-! ### Signing in -/

section SignIn

variable {env : Surroundings} {i : ℕ} {x : Provider × Text} {u s : Uuid}

/-- The process has finished its accounts, and sees that the identity belongs to the account. -/
structure Entering (i : ℕ) (x : Provider × Text) (u : Uuid) (db : Db) : Prop where
  complete : Complete i db
  sees : Sees i db x u
  account : ∃ user, db.auth.users.row i u = some user

/-- The account that the process is making for the identity does not have it yet. -/
structure Owing (i : ℕ) (x : Provider × Text) (u : Uuid) (db : Db) : Prop where
  others : ∀ k v y, db.auth.users.Draft i k v → v.firstIdentity = some y → k ≠ u → Sees i db y k
  made : ∃ user, db.auth.users.Draft i u user ∧ user.firstIdentity = some x
  fresh : (db.auth.users.slot u).committed = none

/-- The identity belongs to the account, and the session as well. -/
structure Opens (x : Provider × Text) (u s : Uuid) (db : Db) : Prop where
  resolves : Resolves db x u
  account : ∃ user, (db.auth.users.slot u).committed = some user
  session : ∃ session, (db.auth.sessions.slot s).committed = some session ∧ session.userId = u

theorem Opens.later {db db' : Db} (h : Opens x u s db)
    (husers : Table.Grown (Lasts origin) db.auth.users db'.auth.users)
    (hidentities : Table.Grown (Lasts known) db.identities db'.identities)
    (hsessions : Table.Grown (Lasts Session.userId) db.auth.sessions db'.auth.sessions) :
    Opens x u s db' := by
  obtain ⟨user, huser⟩ := h.account
  obtain ⟨user', huser', -⟩ := husers u user huser
  obtain ⟨session, hsession, hu⟩ := h.session
  obtain ⟨session', hsession', hu'⟩ := hsessions s session hsession
  exact ⟨h.resolves.later hidentities, ⟨user', huser'⟩, session', hsession', hu'.trans hu⟩

/-- The process has finished its accounts, and sees that the identity belongs to the account. -/
def entering (env : Surroundings) (i : ℕ) (x : Provider × Text) (u : Uuid) :
    Assertion (federationContract env) i where
  holds := Entering i x u
  stable := by
    intro j db db' hne _ _ hg h
    have hg : Goes j db db' := hg
    obtain ⟨user, huser⟩ := h.account
    obtain ⟨user', huser', -⟩ :=
      Table.le_row_of_other hg.users hg.usersGrown Lasts.refl hne u user huser
    exact ⟨h.complete.of_other hg hne,
      h.sees.later (Table.le_row_of_other hg.identities hg.identitiesGrown Lasts.refl hne),
      user', huser'⟩
  tick _ _ h := ⟨h.complete, h.sees, h.account⟩

/-- The account that the process is making for the identity does not have it yet. -/
def owing (env : Surroundings) (i : ℕ) (x : Provider × Text) (u : Uuid) :
    Assertion (federationContract env) i where
  holds := Owing i x u
  stable := by
    intro j db db' hne _ _ hg h
    have hg : Goes j db db' := hg
    obtain ⟨user, hdraft, hx⟩ := h.made
    refine ⟨fun k v y hv hy hk => ?_, ⟨user, ?_, hx⟩, ?_⟩
    · exact (h.others k v y ((Table.draft_iff_of_other hg.users hne).mp hv) hy hk).later
        (Table.le_row_of_other hg.identities hg.identitiesGrown Lasts.refl hne)
    · exact (Table.draft_iff_of_other hg.users hne).mpr hdraft
    · rw [(hg.users u).eq_of_held hdraft hne.symm]
      exact h.fresh
  tick _ _ h := ⟨h.others, h.made, h.fresh⟩

/-- The session, which the process has not published yet, belongs to the account. -/
def admitted (env : Surroundings) (i : ℕ) (u s : Uuid) : Assertion (federationContract env) i where
  holds db := ∃ session, db.auth.sessions.row i s = some session ∧ session.userId = u
  stable := by
    rintro j db db' hne - - hg ⟨session, hsession, hu⟩
    have hg : Goes j db db' := hg
    obtain ⟨session', hsession', hu'⟩ := hg.sessions_row hne s session hsession
    exact ⟨session', hsession', hu'.trans hu⟩
  tick _ _ h := h

/-- The identity belongs to the account, and the session as well. -/
def opens (env : Surroundings) (i : ℕ) (x : Provider × Text) (u s : Uuid) :
    Assertion (federationContract env) i where
  holds := Opens x u s
  stable := by
    intro j db db' _ _ _ hg h
    have hg : Goes j db db' := hg
    exact h.later hg.usersGrown hg.identitiesGrown hg.sessionsGrown
  tick _ _ h := ⟨h.resolves, h.account, h.session⟩

theorem keeps_entering {β : Type} {q : Query β} (hq : q.Modest) (hends : q.ends = false) :
    (federationContract env).Keeps (entering env i x u) q := by
  intro db b db' hs h _ hrun
  have hs : Federated db := hs
  have hready := ready_of_modest hq h.complete
  obtain ⟨hs', hg⟩ := federated_of_run hs hready hrun
  have hw := writes_of_run hready hends hrun
  obtain ⟨user, huser⟩ := h.account
  obtain ⟨user', huser', -⟩ :=
    hw.users.le_row Lasts.refl (fun _ _ _ hA => hA.2.1) u user huser
  exact ⟨hs', hg, complete_of_run hs h.complete (joins_of_modest hq) hrun,
    h.sees.later (hw.identities.le_row Lasts.refl fun _ _ _ hA => hA.2.1), user', huser'⟩

theorem keeps_entering_service {β : Type} (q : Marketplace.Query β)
    (hq : (Query.service q).ends = false) :
    (federationContract env).Keeps (entering env i x u) (.service q) :=
  keeps_entering trivial hq

/-- The process has finished its accounts, and has looked the identity up. -/
def matched (env : Surroundings) (i : ℕ) (x : Provider × Text) (u : Uuid) :
    Assertion (federationContract env) i where
  holds db := Complete i db ∧ Sees i db x u
  stable := by
    intro j db db' hne _ _ hg h
    have hg : Goes j db db' := hg
    exact ⟨h.1.of_other hg hne,
      h.2.later (Table.le_row_of_other hg.identities hg.identitiesGrown Lasts.refl hne)⟩
  tick _ _ h := h

/-- **A known identity** opens its account. -/
theorem safe_resume {id : Uuid} {link : OauthIdentity} {now : Instant} :
    Safe (Assertion.onOk (fun p => entering env i x p.1) fun _ => .any) (resume id link now).run
      (matched env i x link.userId) := by
  refine Safe.look_andThen (Assertion.onSome fun _ => entering env i x link.userId) ?_
    fun user => ?_
  · intro db hs h
    rcases huser : db.auth.users.row i link.userId with _ | user
    · trivial
    · exact ⟨h.1, h.2, user, huser⟩
  · have hkeeps : (federationContract env).Keeps (entering env i x link.userId)
        (.touchLogin id now) :=
      keeps_entering (show Query.Modest (.touchLogin id now) from trivial) rfl
    rcases user with _ | user
    · exact Safe.ret fun _ _ _ => trivial
    · rcases hcan : (!user.status.canAuthenticate) with _ | _
      · simp only [hcan]
        exact Safe.query_andThen (fun _ => entering env i x link.userId) hkeeps fun _ =>
          Safe.ret fun _ _ h => h
      · simp only [hcan]
        exact Safe.ret fun _ _ _ => trivial

/-- **An account that is made for an identity** does not have it yet. -/
theorem safe_insertArrival {email : Option Text} {displayName : Text} {accountType : AccountType} :
    Safe (Assertion.onOk (fun p => owing env i x p.1) fun _ => .any)
      (insertArrival email displayName accountType x).run (complete env i) := by
  have hinsert : Safe (Assertion.onOk (fun p => owing env i x p.1) fun _ => .any)
      (insertUser email displayName accountType (some x)).run (complete env i) := by
    refine Safe.query_andThen
      (Assertion.onOk (fun u => owing env i x u) fun _ => .any) ?_ fun inserted => ?_
    · intro db b db' hs hi _ hrun
      have hs : Federated db := hs
      have hi : Complete i db := hi
      rw [accounts_run] at hrun
      obtain ⟨hs', hg⟩ := federated_of_run hs (ready_insertUser _) hrun
      refine ⟨hs', hg, ?_⟩
      rcases run_insertUser hrun with ⟨⟨e, rfl⟩, rfl⟩ | ⟨rfl, rfl⟩
      · trivial
      · refine ⟨fun k v y hv hy hk => hi k v y ((Table.draft_put_of_ne hk).mp hv) hy,
          ⟨_, Table.draft_put, ?_⟩, Table.committed_put_fresh⟩
        rfl
    · rcases inserted with e | u
      · exact Safe.ret fun _ _ h => h
      · exact Safe.ret fun _ _ h => h
  refine Safe.bind hinsert fun inserted => ?_
  rcases inserted with e | user
  · cases e <;> exact Safe.ret fun _ _ _ => trivial
  · exact Safe.ret fun _ _ h => h

/-- **The account gets its identity**, or the sign-in fails. -/
theorem safe_insertIdentity {provider : Provider} {identity : VerifiedIdentity} {now : Instant} :
    Safe (Assertion.onOk (fun _ => entering env i (provider, identity.providerSubject) u)
        fun _ => .any)
      (insertIdentity u provider identity none now).run
      (owing env i (provider, identity.providerSubject) u) := by
  refine Safe.query_andThen (Assertion.onOk
    (fun _ => entering env i (provider, identity.providerSubject) u) fun _ => .any) ?_
    fun inserted => ?_
  · intro db b db' hs h _ hrun
    have hs : Federated db := hs
    have h : Owing i (provider, identity.providerSubject) u db := h
    obtain ⟨user, hdraft, hx⟩ := h.made
    have hmaking : Making i db u := ⟨⟨user, hdraft⟩, h.fresh⟩
    rw [accounts_run] at hrun
    obtain ⟨hs', hg⟩ := federated_of_run hs (ready_insertIdentity hmaking) hrun
    have hw := writes_of_run (ready_insertIdentity hmaking) rfl hrun
    refine ⟨hs', hg, ?_⟩
    rcases run_insertIdentity hrun with ⟨⟨e, rfl⟩, -⟩ | ⟨l, t, rfl, ht, rfl⟩
    · trivial
    · have hsees : Sees i { db with identities := t } (provider, identity.providerSubject) u := by
        obtain ⟨-, ⟨hno, -⟩ | ⟨hl, rfl, -⟩⟩ := Table.insertFresh_cases ht
        · cases hno
        · refine ⟨db.identities.fresh, _, Table.draft_put.row, ?_, ?_⟩
          · rfl
          · rfl
      refine ⟨fun k v y hv hy => ?_, hsees, user, hdraft.row⟩
      rcases eq_or_ne k u with rfl | hne
      · have hv : db.auth.users.Draft i k v := hv
        rw [Table.Draft, hdraft] at hv
        cases hv
        rw [hx] at hy
        cases hy
        exact hsees
      · exact (h.others k v y hv hy hne).later
          (hw.identities.le_row Lasts.refl fun _ _ _ hA => hA.2.1)
  · rcases inserted with e | l
    · exact Safe.ret fun _ _ h => h
    · exact Safe.ret fun _ _ h => h

/-- **An identity that is not known** gets an account. -/
theorem safe_arrive {provider : Provider} {identity : VerifiedIdentity}
    {intendedAccountType : Option AccountType} {clientEmail clientDisplayName : Option Text}
    {now : Instant} :
    Safe (Assertion.onOk (fun p => entering env i (provider, identity.providerSubject) p.1)
        fun _ => .any)
      (arrive provider identity intendedAccountType clientEmail clientDisplayName now).run
      (complete env i) := by
  unfold arrive
  rcases intendedAccountType with _ | accountType
  · exact Safe.ret fun _ _ _ => trivial
  · refine Safe.andThen _ safe_insertArrival fun p => ?_
    exact Safe.andThen _ safe_insertIdentity fun _ => Safe.ret fun _ _ h => h

theorem safe_resolve {provider : Provider} {identity : VerifiedIdentity}
    {intendedAccountType : Option AccountType} {clientEmail clientDisplayName : Option Text}
    {now : Instant} :
    Safe (Assertion.onOk (fun p => entering env i (provider, identity.providerSubject) p.1)
        fun _ => .any)
      (resolve provider identity intendedAccountType clientEmail clientDisplayName now).run
      (complete env i) := by
  refine Safe.look_andThen (fun existing => existing.elim (complete env i) fun found =>
    matched env i (provider, identity.providerSubject) found.2.userId) ?_ fun existing => ?_
  · intro db hs hi
    generalize hfound : Option.bind (List.head? _) _ = existing
    rcases existing with _ | ⟨id, link⟩
    · exact hi
    · obtain ⟨l, hl, hrow⟩ := Option.bind_eq_some_iff.mp hfound
      obtain ⟨r, hr, he⟩ := Option.map_eq_some_iff.mp hrow
      cases he
      obtain ⟨r', hr', hpass⟩ := Table.mem_scan.mp (List.mem_of_mem_head? hl)
      rw [hr] at hr'
      cases hr'
      rw [Bool.and_eq_true, decide_eq_true_eq, decide_eq_true_eq] at hpass
      exact ⟨hi, _, _, hr, Prod.ext hpass.1 hpass.2, rfl⟩
  · rcases existing with _ | ⟨id, link⟩
    · exact safe_arrive
    · exact safe_resume

/-- **The session is the account's.** -/
theorem safe_issueSession {begun now : Instant} :
    Safe (Assertion.onOk
        (fun session => (entering env i x u).and (admitted env i u session.sessionId))
        fun _ => .any)
      (ofService (issueSession env.toEnv i u begun now none)).run (entering env i x u) := by
  refine Safe.query (fun inserted => if inserted = true then
    (entering env i x u).and (admitted env i u i) else entering env i x u) ?_ fun inserted => ?_
  · intro db b db' hs h hC hrun
    obtain ⟨hs', hg, h'⟩ := keeps_entering_service _ rfl db b db' hs h hC hrun
    refine ⟨hs', hg, ?_⟩
    split
    · rename_i hb
      rw [accounts_run] at hrun
      obtain ⟨auth, hq, rfl⟩ := run_service hrun
      obtain ⟨t, ht, rfl⟩ := Marketplace.Query.run_sessions hq
      obtain ⟨-, hb', hput⟩ := Table.modify_cases ht
      rcases hrow : db.auth.sessions.row i i with _ | s₀
      · rcases hput with ⟨hnone, -⟩ | ⟨session, hsession, rfl⟩
        · simp [Sessions.Query.act, Sessions.Query.key, hrow, Table.inserting] at hnone
        · refine ⟨h', session, ?_, ?_⟩
          · exact Table.draft_put.row
          · simp only [Sessions.Query.act, Sessions.Query.key, hrow, Table.inserting] at hsession
            cases hsession
            rfl
      · rw [hb'] at hb
        simp [Sessions.Query.act, Sessions.Query.key, hrow, Table.inserting] at hb
    · exact h'
  · cases inserted
    · exact Safe.ret fun _ _ _ => trivial
    · exact Safe.ret fun _ _ h => h

/-- What the verifier vouches for. -/
def vouchedFor (env : Surroundings) (i : ℕ) (provider : Provider) (idToken : Text) :
    Option (Provider × Text) :=
  match env.verifyToken i idToken provider with
  | .ok identity => some (provider, identity.providerSubject)
  | .error _ => none

/-- What a sign-in is answered with opens an account that the identity belongs to. -/
def signed (env : Surroundings) (i : ℕ) (provider : Provider) (idToken : Text) :
    Except AppError Response → Assertion (federationContract env) i
  | .ok (.service (.signedIn u session)) => .ex fun x =>
    (Assertion.fact (vouchedFor env i provider idToken = some x)).and
      (opens env i x u session.sessionId)
  | _ => .any

/-- What a sign-in knows before it commits. -/
def signing (env : Surroundings) (i : ℕ) (x : Provider × Text) :
    Except AppError Response → Assertion (federationContract env) i
  | .ok (.service (.signedIn u session)) =>
    (entering env i x u).and (admitted env i u session.sessionId)
  | .ok _ => complete env i
  | .error _ => .any

theorem Entering.opens {db : Db} (h : Entering i x u db)
    (hs : ∃ session, db.auth.sessions.row i s = some session ∧ session.userId = u) :
    Opens x u s { auth := db.auth.commit i, identities := db.identities.commit i } := by
  obtain ⟨l, r, hr, hkey, huser⟩ := h.sees
  obtain ⟨user, hrow⟩ := h.account
  obtain ⟨session, hsession, hu⟩ := hs
  exact ⟨⟨l, r, (Slot.commit_committed i _).trans hr, hkey, huser⟩,
    ⟨user, (Slot.commit_committed i _).trans hrow⟩,
    session, (Slot.commit_committed i _).trans hsession, hu⟩

theorem commit_of_run {db db' : Db} {b : Unit}
    (h : (Query.service .commit).run env.toEnv i db = some (b, db')) :
    db' = { auth := db.auth.commit i, identities := db.identities.commit i } := by
  obtain ⟨auth, hq, rfl⟩ := run_service h
  obtain rfl := Marketplace.Query.run_commit hq
  rfl

/-- **A sign-in with a provider opens the account that the identity belongs to.** -/
theorem safe_signInWithProvider {provider : Provider} {idToken : Text}
    {intendedAccountType : Option AccountType} {clientEmail clientDisplayName : Option Text} :
    Safe (signed env i provider idToken)
      (signInWithProvider env i provider idToken intendedAccountType clientEmail
        clientDisplayName).run (complete env i) := by
  unfold signInWithProvider verified
  refine Safe.look_keep fun now => ?_
  rcases htoken : env.verifyToken i idToken provider with e | identity
  · exact Safe.ret fun _ _ _ => trivial
  have hvouched : vouchedFor env i provider idToken = some (provider, identity.providerSubject) := by
    rw [vouchedFor, htoken]
  refine Safe.look_keep fun begun => ?_
  refine Safe.transaction (signing env i (provider, identity.providerSubject)) ?_ ?_ ?_
  · refine Safe.andThen _ safe_resolve fun p => ?_
    refine Safe.keep_andThen ?_ (fun _ _ _ _ => trivial) fun _ => ?_
    · unfold markVouched
      split_ifs
      · exact Prog.each_embed (each_markEmailVerified (keeps_entering trivial rfl))
      · exact trivial
    · exact Safe.andThen _ safe_issueSession fun session => Safe.ret fun _ _ h => h
  · intro a db b db' hs h _ hrun
    have hs : Federated db := hs
    rw [accounts_run] at hrun
    have hend : ∀ (hi : Complete i db), Federated db' ∧ Goes i db db' := by
      intro hi
      rw [commit_of_run hrun]
      exact federated_commit hs hi
    match a with
    | .service (.signedIn u session) =>
      obtain ⟨hs', hg⟩ := hend h.1.complete
      refine ⟨hs', hg, (provider, identity.providerSubject), hvouched, ?_⟩
      rw [commit_of_run hrun]
      exact h.1.opens h.2
    | .service .done => exact ⟨(hend h).1, (hend h).2, trivial⟩
    | .service (.challenged _ _) => exact ⟨(hend h).1, (hend h).2, trivial⟩
    | .service (.remembered _ _ _) => exact ⟨(hend h).1, (hend h).2, trivial⟩
    | .service (.rotated _) => exact ⟨(hend h).1, (hend h).2, trivial⟩
    | .service (.account _) => exact ⟨(hend h).1, (hend h).2, trivial⟩
    | .authenticated _ => exact ⟨(hend h).1, (hend h).2, trivial⟩
    | .linked => exact ⟨(hend h).1, (hend h).2, trivial⟩
  · intro e db b db' hs _ _ hrun
    obtain ⟨hs', hg⟩ := (federationContract env).rollback hs trivial hrun
    exact ⟨hs', hg, trivial⟩

/-- What a request is answered with. -/
def answered (env : Surroundings) (i : ℕ) :
    Request → Except AppError Response → Assertion (federationContract env) i
  | .signInWithProvider provider idToken _ _ _ => signed env i provider idToken
  | _ => fun _ => .any

/-- **Every request keeps the contract.** -/
theorem safe_serve (env : Surroundings) (i : ℕ) (r : Request) :
    Safe (answered env i r) (serve env i r).run (complete env i) := by
  have hother : ∀ {p : Acting Response}, (p.run.Each fun q => q.Modest) →
      Safe (fun _ => .any) p.run (complete env i) := fun h =>
    (Safe.keep (h.mono fun q hq => keeps_complete hq)).any_post
  cases r with
  | service request =>
    exact hother (Action.each_andThen (each_ofService fun q => trivial) fun _ => trivial)
  | authenticate rawToken => exact hother (each_authenticate fun _ _ _ _ => trivial)
  | register email displayName password accountType =>
    exact hother (each_register (fun q => trivial) (fun _ h => h) fun _ _ => trivial)
  | signInWithProvider provider idToken intended clientEmail clientDisplayName =>
    exact safe_signInWithProvider
  | linkProvider userId provider idToken =>
    refine hother (each_linkProvider (fun q => trivial) fun _ r _ _ _ hl => ?_)
    have hlinked : r.linkedBy ≠ none := by
      rw [hl]
      nofun
    exact hlinked

end SignIn

/-! ### What the process of a request is about to publish -/

/-- The request is a sign-in with a provider. -/
def Request.signsIn : Request → Bool
  | .signInWithProvider _ _ _ _ _ => true
  | _ => false

/-- The identity that the accounts of a request are made for. -/
def arriving (env : Surroundings) (i : ℕ) : Request → Option (Provider × Text)
  | .signInWithProvider provider idToken _ _ _ => vouchedFor env i provider idToken
  | _ => none

/-- The identities that a request inserts. -/
def Asked (env : Surroundings) (i : ℕ) : Request → OauthIdentity → Prop
  | .signInWithProvider _ _ _ _ _, identity => identity.linkedBy = none
  | .linkProvider userId provider idToken, identity =>
    identity.userId = userId ∧ vouchedFor env i provider idToken = some identity.key
  | _, _ => False

/-- The queries of a request: its accounts are made for its identity, and a sign-in writes no
address over another one. -/
def Asks (env : Surroundings) (i : ℕ) (r : Request) {β : Type} (q : Query β) : Prop :=
  q.Inserts (fun u => u.firstIdentity = arriving env i r) (Asked env i r) ∧
    (r.signsIn = true → q.keepsEmail = true)

/-- **What the process of a request is about to publish.** -/
structure Own (env : Surroundings) (i : ℕ) (r : Request) (db : Db) : Prop where
  /-- New accounts are made for the identity. -/
  users : ∀ k u, db.auth.users.Draft i k u → (db.auth.users.slot k).committed = none →
    u.firstIdentity = arriving env i r
  /-- New identities are those that were asked for. -/
  identities : ∀ l identity, db.identities.Draft i l identity →
    (db.identities.slot l).committed = none → Asked env i r identity
  /-- A sign-in leaves the addresses that are there. -/
  emails : r.signsIn = true → ∀ k,
    Lasts User.email (db.auth.users.slot k).committed (db.auth.users.row i k)

/-- The process holds nothing. -/
structure Fresh (i : ℕ) (db : Db) : Prop where
  users : ∀ k v, (db.auth.users.slot k).lock ≠ some (i, v)
  identities : ∀ l v, (db.identities.slot l).lock ≠ some (i, v)

section Own

variable {env : Surroundings} {i j : ℕ} {r : Request} {db db' : Db} {β : Type} {b : β}

theorem Fresh.own (h : Fresh i db) (r : Request) : Own env i r db := by
  refine ⟨fun k u hu => absurd hu (h.users k _), fun l r' hr => absurd hr (h.identities l _),
    fun _ k => ?_⟩
  rcases Slot.visible_cases i (db.auth.users.slot k) with hlock | hc
  · exact absurd hlock (h.users k _)
  · rw [Table.row, hc]
    exact Lasts.refl _

theorem fresh_commit : Fresh i { auth := db.auth.commit i, identities := db.identities.commit i } :=
  ⟨fun _ _ h => (Slot.lock_of_commit h).1 rfl, fun _ _ h => (Slot.lock_of_commit h).1 rfl⟩

theorem fresh_rollback :
    Fresh i { auth := db.auth.rollback i, identities := db.identities.rollback i } :=
  ⟨fun _ _ h => (Slot.lock_of_rollback h).1 rfl, fun _ _ h => (Slot.lock_of_rollback h).1 rfl⟩

theorem asked_of_known {identity identity' : OauthIdentity} (h : Asked env i r identity)
    (hknown : known identity' = known identity) : Asked env i r identity' := by
  cases r with
  | signInWithProvider provider idToken intended clientEmail clientDisplayName =>
    exact (linkedBy_of_known hknown).trans h
  | linkProvider userId provider idToken =>
    exact ⟨(userId_of_known hknown).trans h.1, h.2.trans (congrArg some (key_of_known hknown).symm)⟩
  | service request => exact h
  | authenticate rawToken => exact h
  | register email displayName password accountType => exact h

/-- What a query of the request does to what its process is about to publish. -/
theorem own_of_run {q : Query β} (hq : Asks env i r q) (h : q.run env.toEnv i db = some (b, db'))
    (hJ : Own env i r db) : Own env i r db' := by
  rcases cases_of_run h hq.1 with ⟨-, -, rfl⟩ | ⟨-, rfl⟩ | hw
  · exact fresh_commit.own r
  · exact fresh_rollback.own r
  have husers : ∀ k, (db'.auth.users.slot k).committed = (db.auth.users.slot k).committed :=
    hw.users.committed fun _ _ _ _ hA => hA.1
  have hidentities : ∀ l, (db'.identities.slot l).committed = (db.identities.slot l).committed :=
    hw.identities.committed fun _ _ _ _ hA => hA.1
  refine ⟨fun k u hu hnone => ?_, fun l identity hl hnone => ?_, fun hsigns k => ?_⟩
  · rw [husers k] at hnone
    rcases hw.users.draft hu with hu | ⟨m, -, hlast, hnew, -⟩
    · exact hJ.users k u hu hnone
    · rcases hrow : db.auth.users.row i k with _ | u₀
      · exact hnew hrow
      · obtain ⟨_, he, horigin⟩ := hlast u₀ hrow
        cases he
        exact (congrArg Prod.fst horigin).trans
          (hJ.users k u₀ (Table.draft_of_row hrow hnone) hnone)
  · rw [hidentities l] at hnone
    rcases hw.identities.draft hl with hl | ⟨m, -, hlast, hnew⟩
    · exact hJ.identities l identity hl hnone
    · rcases hrow : db.identities.row i l with _ | r₀
      · exact hnew hrow
      · obtain ⟨_, he, hknown⟩ := hlast r₀ hrow
        cases he
        exact asked_of_known (hJ.identities l r₀ (Table.draft_of_row hrow hnone) hnone) hknown
  · rw [husers k]
    exact Lasts.trans _ _ _ (hJ.emails hsigns k)
      (hw.users.le_row Lasts.refl (fun _ _ _ hA => hA.2.2.2 (hq.2 hsigns)) k)

/-- What one query does to the rows of the others. -/
theorem moves_of_run {q : Query β} (h : q.run env.toEnv j db = some (b, db')) :
    Table.Moves j db.auth.users db'.auth.users ∧ Table.Moves j db.identities db'.identities := by
  have hany : q.Inserts (fun _ => True) fun _ => True := by cases q <;> trivial
  rcases cases_of_run h hany with ⟨-, -, rfl⟩ | ⟨-, rfl⟩ | hw
  · exact ⟨Table.moves_commit j _, Table.moves_commit j _⟩
  · exact ⟨Table.moves_rollback j _, Table.moves_rollback j _⟩
  · exact ⟨hw.users.effect.moves, hw.identities.effect.moves⟩

theorem Fresh.of_other (h : Fresh i db) {q : Query β} (hne : j ≠ i)
    (hq : q.run env.toEnv j db = some (b, db')) : Fresh i db' := by
  obtain ⟨hu, hi⟩ := moves_of_run hq
  exact ⟨fun k v hv => h.users k v ((hu.lock_iff hne).mp hv),
    fun l v hv => h.identities l v ((hi.lock_iff hne).mp hv)⟩

theorem Own.of_other (h : Own env i r db) {q : Query β} (hne : j ≠ i)
    (hq : q.run env.toEnv j db = some (b, db')) : Own env i r db' := by
  obtain ⟨hu, hi⟩ := moves_of_run hq
  refine ⟨fun k u hk hnone => ?_, fun l identity hl hnone => ?_, fun hsigns k => ?_⟩
  · have hk := (Table.draft_iff_of_other hu hne).mp hk
    rw [(hu k).eq_of_held hk hne.symm] at hnone
    exact h.users k u hk hnone
  · have hl := (Table.draft_iff_of_other hi hne).mp hl
    rw [(hi l).eq_of_held hl hne.symm] at hnone
    exact h.identities l identity hl hnone
  · rcases Slot.visible_cases i (db'.auth.users.slot k) with hlock | hc
    · have hsame := (hu k).eq_of_held ((hu.lock_iff hne).mp hlock) hne.symm
      rw [Table.row, hsame]
      exact h.emails hsigns k
    · rw [Table.row, hc]
      exact Lasts.refl _

theorem asks_signInWithProvider {provider : Provider} {idToken : Text}
    {intended : Option AccountType} {clientEmail clientDisplayName : Option Text} :
    (signInWithProvider env i provider idToken intended clientEmail clientDisplayName).run.Each
      (Asks env i
        (.signInWithProvider provider idToken intended clientEmail clientDisplayName)) := by
  unfold signInWithProvider verified
  refine Action.each_andThen (fun _ => trivial) fun now => ?_
  rcases htoken : env.verifyToken i idToken provider with e | identity
  · exact trivial
  refine each_inTransaction ⟨trivial, fun _ => rfl⟩ ⟨trivial, fun _ => rfl⟩ fun begun => ?_
  refine Action.each_andThen (Action.each_andThen (fun _ => trivial) fun existing => ?_)
    fun p => Action.each_andThen ?_ fun _ => Action.each_andThen ?_ fun session => trivial
  · rcases existing with _ | ⟨id, link⟩
    · unfold arrive
      rcases intended with _ | accountType
      · exact trivial
      · refine Action.each_andThen (Prog.each_bind (each_insertUser fun user hu => ?_)
          fun inserted => ?_) fun user => Action.each_andThen
            (each_insertIdentity fun r _ _ hl => ⟨hl, fun _ => rfl⟩) fun _ => trivial
        · refine ⟨?_, fun _ => rfl⟩
          show user.firstIdentity = vouchedFor env i provider idToken
          rw [hu, vouchedFor, htoken]
        · rcases inserted with e | user
          · cases e <;> exact trivial
          · exact trivial
    · refine Action.each_andThen (fun _ => trivial) fun user => ?_
      rcases user with _ | user
      · exact trivial
      · dsimp only
        split_ifs
        · exact trivial
        · exact Action.each_andThen ⟨⟨trivial, fun _ => rfl⟩, fun _ => trivial⟩ fun _ => trivial
  · unfold markVouched
    split_ifs
    · exact Prog.each_embed (each_markEmailVerified ⟨trivial, fun _ => rfl⟩)
    · exact trivial
  · exact Prog.each_embed (each_issueSession fun s _ _ _ => ⟨trivial, fun _ => rfl⟩)

/-- **The queries of a request are those it may issue.** -/
theorem asks_serve (env : Surroundings) (i : ℕ) (r : Request) :
    (serve env i r).run.Each (Asks env i r) := by
  have hservice : ∀ {r : Request}, r.signsIn = false → ∀ {β : Type} (q : Marketplace.Query β),
      Asks env i r (.service q) := fun hr _ q => ⟨trivial, fun h => absurd (hr.symm.trans h) nofun⟩
  cases r with
  | service request =>
    exact Action.each_andThen (each_ofService fun q => hservice rfl q) fun _ => trivial
  | authenticate rawToken => exact each_authenticate fun _ _ _ _ => ⟨trivial, fun _ => rfl⟩
  | register email displayName password accountType =>
    exact each_register (fun q => hservice rfl q) (fun _ h => ⟨h, fun _ => rfl⟩)
      fun _ _ => ⟨trivial, fun _ => rfl⟩
  | linkProvider userId provider idToken =>
    refine each_linkProvider (fun q => hservice rfl q) fun identity r' htoken hu hk _ => ?_
    refine ⟨⟨hu, ?_⟩, fun _ => rfl⟩
    rw [vouchedFor, htoken, hk]
  | signInWithProvider provider idToken intended clientEmail clientDisplayName =>
    exact asks_signInWithProvider

end Own

/-! ### Runs -/

section Runs

variable {env : Surroundings} {i j : ℕ} {x : Provider × Text} {u v : Uuid}
  {c d e f : Config ℕ Db Request (Except AppError Response) Query} {db₀ : Db}

/-- Nobody is at work, identities are there once, and no account counts as made for one. -/
structure AtRest (db : Db) : Prop where
  users : ∀ k, (db.auth.users.slot k).lock = none
  identities : ∀ l, (db.identities.slot l).lock = none
  sessions : ∀ k, (db.auth.sessions.slot k).lock = none
  unique : ∀ {l m r s}, (db.identities.slot l).committed = some r →
    (db.identities.slot m).committed = some s → r.key = s.key → l = m
  unmade : ∀ k u, (db.auth.users.slot k).committed = some u → u.firstIdentity = none

theorem AtRest.federated (h : AtRest db₀) : Federated db₀ where
  unique := Table.AtMostOne.of_unlocked h.identities fun ⟨r, hr, hg⟩ ⟨s, hs, hg'⟩ =>
    h.unique hr hs (Option.some.inj (hg.trans hg'.symm))
  users := Table.ordered_of_unlocked h.users
  identities := Table.ordered_of_unlocked h.identities
  sessions := Table.ordered_of_unlocked h.sessions
  made k u x hu hx := by
    rw [h.unmade k u hu] at hx
    cases hx
  claimed i l r hr := absurd hr (Table.not_draft_of_unlocked (h.identities l))

theorem AtRest.fresh (h : AtRest db₀) (i : ℕ) : Fresh i db₀ := by
  refine ⟨fun k v hv => ?_, fun l v hv => ?_⟩
  · rw [h.users k] at hv
    cases hv
  · rw [h.identities l] at hv
    cases hv

theorem AtRest.complete (h : AtRest db₀) (i : ℕ) : Complete i db₀ :=
  fun k _ _ hu => absurd hu (Table.not_draft_of_unlocked (h.users k))

/-- **Where a run gets to.** -/
theorem federated_of_reachable (h₀ : AtRest db₀)
    (hc : Reachable (accounts env) anyQuery (.initial db₀) c) :
    Federated c.db ∧ (federationContract env).Tracked (complete env) (answered env) c :=
  Contract.of_reachable (safe_serve env) h₀.federated h₀.complete hc

/-- What a process of a request is about to publish, in every configuration that is reached. -/
theorem own_of_running (h₀ : AtRest db₀) (hc : Reachable (accounts env) anyQuery (.initial db₀) c)
    {r : Request} {p : Prog ℕ Db Query (Except AppError Response)} (hi : c.procs i = .running r p) :
    Own env i r c.db :=
  ((own_of_reachable (S := accounts env) (fun i r => asks_serve env i r) Fresh
    (fun i r => Own env i r) (fun _ r _ h => h.own r) (fun _ _ _ _ _ _ hq _ h hJ => own_of_run hq h hJ)
    (fun _ _ _ _ _ _ hne h => ⟨fun hJ => hJ.of_other hne h, fun _ hJ => hJ.of_other hne h⟩)
    (fun _ _ _ => ⟨fun h => ⟨h.users, h.identities⟩,
      fun _ h => ⟨h.users, h.identities, h.emails⟩⟩) h₀.fresh hc).2 i r p hi).1

/-- Accounts, identities and sessions that are there stay what they are. -/
structure Later (db db' : Db) : Prop where
  users : Table.Grown (Lasts origin) db.auth.users db'.auth.users
  identities : Table.Grown (Lasts known) db.identities db'.identities
  sessions : Table.Grown (Lasts Session.userId) db.auth.sessions db'.auth.sessions

theorem later_of_reachable (h₀ : AtRest db₀)
    (hc : Reachable (accounts env) anyQuery (.initial db₀) c)
    (hd : Reachable (accounts env) anyQuery c d) : Later c.db d.db := by
  obtain ⟨hs, ht⟩ := federated_of_reachable h₀ hc
  refine ((federationContract env).rel_of_reachable (safe_serve env) Later
    (fun db => ⟨fun _ => Lasts.refl _, fun _ => Lasts.refl _, fun _ => Lasts.refl _⟩)
    (fun _ _ _ h h' => ⟨fun k => Lasts.trans _ _ _ (h.users k) (h'.users k),
      fun l => Lasts.trans _ _ _ (h.identities l) (h'.identities l),
      fun k => Lasts.trans _ _ _ (h.sessions k) (h'.sessions k)⟩)
    (fun _ _ _ _ _ hg => ⟨hg.usersGrown, hg.identitiesGrown, hg.sessionsGrown⟩)
    (fun _ _ => ⟨fun _ => Lasts.refl _, fun _ => Lasts.refl _, fun _ => Lasts.refl _⟩) hs ht hd).1

/-- What a step of a process publishes, it was about to publish. -/
theorem published_of_stepOf (h : StepOf (accounts env) anyQuery i c d) :
    (∀ k u, (d.db.auth.users.slot k).committed = some u →
      c.db.auth.users.Draft i k u ∨ (c.db.auth.users.slot k).committed = some u) ∧
      ∀ l r, (d.db.identities.slot l).committed = some r →
        c.db.identities.Draft i l r ∨ (c.db.identities.slot l).committed = some r := by
  have hrun : ∀ {β : Type} {q : Query β} {b : β} {db : Db},
      q.run env.toEnv i c.db = some (b, db) →
      (∀ k u, (db.auth.users.slot k).committed = some u →
        c.db.auth.users.Draft i k u ∨ (c.db.auth.users.slot k).committed = some u) ∧
      ∀ l r, (db.identities.slot l).committed = some r →
        c.db.identities.Draft i l r ∨ (c.db.identities.slot l).committed = some r := by
    intro β q b db hq
    have hany : q.Inserts (fun _ => True) fun _ => True := by cases q <;> trivial
    rcases cases_of_run hq hany with ⟨-, -, rfl⟩ | ⟨-, rfl⟩ | hw
    · exact ⟨fun k u hu => Table.committed_of_commit hu, fun l r hr => Table.committed_of_commit hr⟩
    · refine ⟨fun k u hu => Or.inr ?_, fun l r hr => Or.inr ?_⟩
      · exact Slot.rollback_committed.symm.trans hu
      · exact Slot.rollback_committed.symm.trans hr
    · refine ⟨fun k u hu => Or.inr ?_, fun l r hr => Or.inr ?_⟩
      · exact (hw.users.committed (fun _ _ _ _ hA => hA.1) k).symm.trans hu
      · exact (hw.identities.committed (fun _ _ _ _ hA => hA.1) l).symm.trans hr
  cases h with
  | read hi => exact ⟨fun k u hu => Or.inr hu, fun l r hr => Or.inr hr⟩
  | query hi hC hq => exact hrun hq
  | crash hi hC hq => exact hrun (q := .service .rollback) hq

/-- A sign-in of process `i`, with the identity, creates the account in this step. -/
structure Creates (env : Surroundings) (i : ℕ) (x : Provider × Text) (u : Uuid)
    (c d : Config ℕ Db Request (Except AppError Response) Query) : Prop where
  step : StepOf (accounts env) anyQuery i c d
  request : ∃ r p, c.procs i = .running r p ∧ arriving env i r = some x
  absent : (c.db.auth.users.slot u).committed = none
  present : (d.db.auth.users.slot u).committed ≠ none

/-- An account that a sign-in creates has the identity. -/
theorem Creates.resolves (h₀ : AtRest db₀) (hc : Reachable (accounts env) anyQuery (.initial db₀) c)
    (h : Creates env i x u c d) : Resolves d.db x u := by
  obtain ⟨r, p, hi, hx⟩ := h.request
  obtain ⟨user, huser⟩ := Option.ne_none_iff_exists'.mp h.present
  have hdraft : c.db.auth.users.Draft i u user := by
    rcases (published_of_stepOf h.step).1 u user huser with hdraft | hold
    · exact hdraft
    · cases h.absent.symm.trans hold
  have hfirst := (own_of_running h₀ hc hi).users u user hdraft h.absent
  exact (federated_of_reachable h₀ (hc.tail h.step.step)).1.made u user x huser (hfirst.trans hx)

/-- **Federated sign-in never opens somebody else's account.** A sign-in is answered with a session
of the account that its identity belongs to; an identity belongs to one account, for good; no
step gives an identity to an account that is there, but to one that asked for it to be linked; a
sign-in leaves the type and the address of every account that is there; and the sign-ins with
one identity create one account. -/
theorem sign_in_never_binds (h₀ : AtRest db₀)
    (hc : Reachable (accounts env) anyQuery (.initial db₀) c) :
    (∀ i provider idToken intended clientEmail clientDisplayName u session,
      c.Served i (.signInWithProvider provider idToken intended clientEmail clientDisplayName)
        (.ok (.service (.signedIn u session))) →
      ∃ x, vouchedFor env i provider idToken = some x ∧ Opens x u session.sessionId c.db) ∧
    (∀ d x u v, Reachable (accounts env) anyQuery c d → Resolves c.db x u → Resolves d.db x v →
      u = v) ∧
    (∀ i d r p x u user, StepOf (accounts env) anyQuery i c d → c.procs i = .running r p →
      Resolves d.db x u → ¬ Resolves c.db x u → (c.db.auth.users.slot u).committed = some user →
      ∃ provider idToken, r = .linkProvider u provider idToken ∧
        vouchedFor env i provider idToken = some x) ∧
    (∀ i d r p u user, StepOf (accounts env) anyQuery i c d → c.procs i = .running r p →
      r.signsIn = true → (c.db.auth.users.slot u).committed = some user →
      ∃ user', (d.db.auth.users.slot u).committed = some user' ∧ user'.email = user.email ∧
        user'.accountType = user.accountType) ∧
    (∀ i j x u v d, Creates env i x u c d → Creates env j x v c d → u = v) ∧
    ∀ i j x u v d e f, Creates env i x u c d → Reachable (accounts env) anyQuery d e →
      ¬ Creates env j x v e f := by
  obtain ⟨hs, ht⟩ := federated_of_reachable h₀ hc
  refine ⟨fun i provider idToken intended clientEmail clientDisplayName u session hserved => ?_,
    fun d x u v hd hu hv => ?_, fun i d r p x u user hstep hi hd hno huser => ?_,
    fun i d r p u user hstep hi hsigns huser => ?_, fun i j x u v d hu hv => ?_,
    fun i j x u v d e f hu he hv => ?_⟩
  · exact ht.served hs hserved
  · exact (hu.later (later_of_reachable h₀ hc hd).identities).unique
      (federated_of_reachable h₀ (hc.trans hd)).1 hv
  · obtain ⟨l, identity, hl, rfl, rfl⟩ := hd
    -- the identity is new, so the process was about to publish it
    have hnone : (c.db.identities.slot l).committed = none := by
      by_contra hsome
      obtain ⟨old, hold⟩ := Option.ne_none_iff_exists'.mp hsome
      obtain ⟨identity', hl', hknown⟩ :=
        (later_of_reachable h₀ hc (.single hstep.step)).identities l old hold
      rw [hl] at hl'
      cases hl'
      exact hno ⟨l, old, hold, (key_of_known hknown).symm, (userId_of_known hknown).symm⟩
    have hdraft : c.db.identities.Draft i l identity := by
      rcases (published_of_stepOf hstep).2 l identity hl with hdraft | hold
      · exact hdraft
      · cases hnone.symm.trans hold
    have hasked := (own_of_running h₀ hc hi).identities l identity hdraft hnone
    cases r with
    | signInWithProvider provider idToken intended clientEmail clientDisplayName =>
      have hmaking := hs.claimed i l identity hdraft hnone hasked
      cases hmaking.2.symm.trans huser
    | linkProvider userId provider idToken =>
      obtain ⟨rfl, hx⟩ := hasked
      exact ⟨provider, idToken, rfl, hx⟩
    | service request => exact hasked.elim
    | authenticate rawToken => exact hasked.elim
    | register email displayName password accountType => exact hasked.elim
  · obtain ⟨user', huser', horigin⟩ :=
      (later_of_reachable h₀ hc (.single hstep.step)).users u user huser
    refine ⟨user', huser', ?_, congrArg Prod.snd horigin⟩
    rcases (published_of_stepOf hstep).1 u user' huser' with hdraft | hold
    · obtain ⟨user'', hseen, hemail⟩ := (own_of_running h₀ hc hi).emails hsigns u user huser
      cases hdraft.row.symm.trans hseen
      exact hemail
    · cases huser.symm.trans hold
      rfl
  · exact (hu.resolves h₀ hc).unique (federated_of_reachable h₀ (hc.tail hu.step.step)).1
      (hv.resolves h₀ hc)
  · have hd := hc.tail hu.step.step
    have hf := (hd.trans he).tail hv.step.step
    have hlater := later_of_reachable h₀ hd (he.tail hv.step.step)
    obtain rfl := ((hu.resolves h₀ hc).later hlater.identities).unique
      (federated_of_reachable h₀ hf).1 (hv.resolves h₀ (hd.trans he))
    obtain ⟨user, huser⟩ := Option.ne_none_iff_exists'.mp hu.present
    obtain ⟨user', huser', -⟩ := (later_of_reachable h₀ hd he).users u user huser
    cases hv.absent.symm.trans huser'

/-! ### A run -/

/-- Surroundings in which every token is vouched for, as the subject it spells. -/
def vouching : Surroundings :=
  { Env.plain with
    roles := fun _ => [.homeowner]
    verifyToken := fun _ idToken _ => .ok
      { providerSubject := idToken
        firebaseUid := idToken
        email := some "a@b.c".toList
        emailFromIdentities := false
        emailVerified := false
        name := none } }

/-- A first sign-in with Google, of somebody whose address nobody has. -/
def firstSignIn : Request :=
  .signInWithProvider .google "subject".toList (some .contractor) none none

/-- Two first sign-ins with one identity, the second of which has to wait for the first. -/
def twoSignIns : List (Event ℕ Request) :=
  .arrive 1 firstSignIn :: .arrive 2 firstSignIn ::
    (List.replicate 3 (.run 2) ++ List.replicate 7 (.run 1) ++ List.replicate 2 (.run 2))

/-- The process has been answered a first sign-in. -/
def signedIn (c : Config ℕ Db Request (Except AppError Response) Query) (i : ℕ) : Bool :=
  match c.procs i with
  | .running r (.ret (.ok (.service (.signedIn _ _)))) => decide (r = firstSignIn)
  | _ => false

theorem atRest_empty : AtRest {} where
  users _ := rfl
  identities _ := rfl
  sessions _ := rfl
  unique := by
    intro l m r s hl
    cases hl
  unmade k u hu := by cases hu

theorem sign_in_never_binds_twoSignIns :
    ∃ (c : Config ℕ Db Request (Except AppError Response) Query) (u : Uuid)
      (session : IssuedSession) (x : Provider × Text),
      c.Served 1 firstSignIn (.ok (.service (.signedIn u session))) ∧
        vouchedFor vouching 1 .google "subject".toList = some x ∧
        Opens x u session.sessionId c.db := by
  obtain ⟨c, hc, hP⟩ := exists_of_exec (accounts vouching) twoSignIns (.initial {})
    (fun c => signedIn c 1) (by decide +kernel)
  rw [signedIn] at hP
  split at hP
  · rename_i r u session hi
    obtain rfl := of_decide_eq_true hP
    obtain ⟨x, hx, hopens⟩ := (sign_in_never_binds atRest_empty hc).1 _ _ _ _ _ _ _ _ hi
    exact ⟨c, u, session, x, hi, hx, hopens⟩
  · cases hP

end Runs

end Marketplace.Accounts
