import Marketplace.Auth.SignInRules

/-!
# No session survives a replaced password

Request by request: a sign-in with the password holds the credential row from the
check of its hash to the commit of its session or challenge, and a replacement
revokes the sessions of the account between the swap and its commit. A sign-in by
code holds no credential row, and is the one place where the proviso
(`Marketplace.codeSignInsCurrent`) is used.
-/

namespace Marketplace

open ReadCommitted

variable {env : Env} {i : ℕ} {db db' : Db} {α β : Type}

theorem HoldsNone.row (h : HoldsNone i db) (u : Uuid) :
    db.credentials.row i u = (db.credentials.slot u).committed :=
  (Slot.visible_cases i _).resolve_left (h u _)

/-- A session is inserted, in an open transaction. -/
theorem signIn_insert (hsalt : ∀ i j p q, env.hash i p = env.hash j q → i = j) {k : Uuid}
    {s : Session} {b : Bool} (hs : SignInInv env db)
    (hr : Query.run env (.sessions (.insert k s)) i db = some (b, db')) :
    SignInInv env db' ∧ SignInStep i db db' ∧ db'.credentials = db.credentials ∧
      (∀ l, (db'.sessions.slot l).committed = (db.sessions.slot l).committed) ∧
      (∀ l v, (db.sessions.slot l).lock = some (i, v) →
        ∃ v', (db'.sessions.slot l).lock = some (i, v')) ∧
      ∀ l s', (db'.sessions.slot l).lock = some (i, some s') →
        (db.sessions.slot l).lock = some (i, some s') ∨ s' = s := by
  have hq : (Query.sessions (.insert k s)).newHash = none := rfl
  have hist := hs.history.of_newHash hsalt hq hr
  have hmoves := (Query.effects hr).sessions.moves
  obtain ⟨t, ht, rfl⟩ := Query.run_sessions hr
  have hcom := Table.committed_modify ht
  obtain ⟨hs', hg⟩ := hs.quiet hist hmoves hcom fun u c hc => ⟨c, hc, rfl⟩
  refine ⟨hs', hg, rfl, hcom, fun l v => Table.held_modify ht, fun l s' hl => ?_⟩
  rcases Table.lock_modify ht hl with hold | ⟨-, r, hr, he⟩
  · exact Or.inl hold
  · cases he
    exact Or.inr (Table.inserting_cases hr).2

/-- A statement that revokes a session takes it off the list of those to look at. -/
theorem Cleared.revoke {q : Sessions.Query β} {userId : Uuid} {pend : Uuid → Uuid → Prop} {b : β}
    (hq : q.inserts = false) (hs : SignInInv env db) (hc : Cleared i pend db)
    (hr : Query.run env (.sessions q) i db = some (b, db'))
    (hmatch : ∀ s, s.userId = userId → s.revoked = none → (q.act (some s)).2.isSome = true) :
    Cleared i (fun u k => pend u k ∧ ¬ (u = userId ∧ k = q.key)) db' := by
  have hquiet : Quiet i db db' := quiet_sessions hq hr
  have hc' := hquiet.cleared hs.current hc
  intro u c hu k s g hk hg hsu
  rcases hc' u c hu k s g hk hg hsu with hgen | hheld | hp
  · exact Or.inl hgen
  · exact Or.inr (Or.inl hheld)
  · by_cases hkey : u = userId ∧ k = q.key
    · obtain ⟨rfl, rfl⟩ := hkey
      right; left
      obtain ⟨t, ht, rfl⟩ := Query.run_sessions hr
      rcases Slot.visible_cases i (db.sessions.slot q.key) with hi | hpub
      · exact hquiet.kept _ _ hi
      · -- the statement found the published session, and it matched
        have hk' : (db.sessions.slot q.key).committed = some s := (hquiet.sessions _).symm.trans hk
        obtain ⟨s', hs'⟩ := Option.isSome_iff_exists.mp (hmatch s hsu hg.1)
        have hact : (q.act (db.sessions.row i q.key)).2 = some s' := by
          rw [Table.row, hpub, hk']
          exact hs'
        exact ⟨some s', congrArg Slot.lock (Table.slot_modify ht hact)⟩
    · exact Or.inr (Or.inr ⟨hp, hkey⟩)

section Requests

variable (hsalt : ∀ i j p q, env.hash i p = env.hash j q → i = j) {userId : Uuid} {g : ℕ}
  {verifiedHash : Text} {R : Assertion (signInContract hsalt) i}

/-! ### Sign-ins with the password -/

/-- The request verified a password against this hash, and holds nothing. -/
def verified (i : ℕ) (userId : Uuid) (verifiedHash : Text) (g : ℕ) :
    Assertion (signInContract hsalt) i :=
  ((outside hsalt i).and (fresh hsalt i)).and (seen hsalt i userId verifiedHash g)

/-- The request holds the credential whose password it verified. -/
def revalidated (i : ℕ) (userId : Uuid) (g : ℕ) : Assertion (signInContract hsalt) i :=
  ((inside hsalt i fun _ _ => False).and (fresh hsalt i)).and (holding hsalt i userId g)

/-- A request that has begun. -/
def begun (i : ℕ) : Assertion (signInContract hsalt) i := (outside hsalt i).and (fresh hsalt i)

/-- What a request reads outside a transaction, the account had. -/
theorem seen_of_read {c : Credential} (hs : SignInInv env db) (hb : (begun hsalt i).holds db)
    (hc : db.credentials.row i userId = some c) :
    (verified hsalt i userId c.passwordHash c.generation).holds db := by
  rw [hb.1.1.row] at hc
  have hist := hs.history.holds.committed hc
  exact ⟨hb, c, c.trail, hc, List.suffix_rfl, hist.stored, rfl⟩

/-- What a request knows once it has read the credential. -/
def readCredential (i : ℕ) (userId : Uuid) :
    Option Credential → Assertion (signInContract hsalt) i
  | none => begun hsalt i
  | some c => verified hsalt i userId c.passwordHash c.generation

theorem readCredential_row (hs : SignInInv env db) (hb : (begun hsalt i).holds db) :
    (readCredential hsalt i userId (db.credentials.row i userId)).holds db := by
  rcases hc : db.credentials.row i userId with _ | c
  · exact hb
  · exact seen_of_read hsalt hs hb hc

/-- What the statement that holds the row answers. -/
def held (i : ℕ) (userId : Uuid) (verifiedHash : Text) (g : ℕ) :
    Option Credential → Assertion (signInContract hsalt) i
  | none => .any
  | some c => .onOk (fun _ => revalidated hsalt i userId g) (fun _ => .any)
    (if c.passwordHash = verifiedHash then .ok () else .error ())

theorem signIn_findForUpdate {b : Option Credential} (hs : SignInInv env db)
    (hv : (verified hsalt i userId verifiedHash g).holds db)
    (hr : Query.run env (.credentials .tx (.findForUpdate userId)) i db = some (b, db')) :
    SignInInv env db' ∧ SignInStep i db db' ∧ (held hsalt i userId verifiedHash g b).holds db' := by
  have hq : (Query.credentials .tx (.findForUpdate userId)).quiet = true := rfl
  have hw : (Query.credentials .tx (.findForUpdate userId)).newHash = none := rfl
  obtain ⟨⟨hout, hfresh⟩, c₀, es, hcom, hes, hh, hgen⟩ := hv
  have hin : (inside hsalt i fun _ _ => False).holds db := ⟨hout.1.cleared _, hout.2⟩
  obtain ⟨hs', hg, hin', hfresh'⟩ :=
    keeps_and_fresh hsalt (keeps_inside hsalt hq) hw db b db' hs ⟨hin, hfresh⟩ trivial hr
  refine ⟨hs', hg, ?_⟩
  rcases b with _ | c
  · exact trivial
  · rw [held]
    split
    · rename_i hsame
      refine ⟨⟨hin', hfresh'⟩, c, ?_⟩
      obtain ⟨t, ht, rfl⟩ := Query.run_credentials hr
      obtain ⟨-, hans, -⟩ := Table.modify_cases ht
      obtain ⟨c₁, c₂, hrow, hcc, hput⟩ := Table.updating_answer hans.symm
      cases hcc
      have hlock : (t.slot userId).lock = some (i, some c) :=
        congrArg Slot.lock (Table.slot_modify ht hput)
      refine ⟨hlock, ?_⟩
      -- the row holds the hash that was verified, so the password is the one verified
      have hrow' : db.credentials.row i userId = some c := hrow
      rw [hout.1.row, hcom] at hrow'
      obtain rfl := Option.some.inj hrow'
      have hist := hs.history.holds.committed hcom
      have hstored : storedHash c₀.trail = some verifiedHash := hsame ▸ hist.stored
      exact (generation_of_suffix hes hist.distinct hh hstored).trans hgen
    · exact trivial

theorem safe_revalidate {now : Instant} :
    Safe (Assertion.onOk (fun _ => revalidated hsalt i userId g) fun _ => .any)
      (revalidate userId verifiedHash now).run (verified hsalt i userId verifiedHash g) := by
  refine Safe.andThen (held hsalt i userId verifiedHash g)
    (safe_onCredential _ (fun _ _ _ => trivial) ?_) fun current => ?_
  · intro db b db' hs hv _ hr
    exact signIn_findForUpdate hsalt hs hv hr
  · refine Safe.keep_andThen (fun _ => trivial) (fun _ _ _ _ => trivial) fun user => ?_
    rcases current with _ | current <;> rcases user with _ | user
    · exact Safe.ret fun _ _ _ => trivial
    · exact Safe.ret fun _ _ _ => trivial
    · exact Safe.ret fun _ _ _ => trivial
    · dsimp only
      split_ifs with hauth hhash hlocked
      · exact Safe.ret fun _ _ _ => trivial
      · exact Safe.ret fun _ _ _ => trivial
      · exact Safe.ret fun _ _ _ => trivial
      · have hsame : current.passwordHash = verifiedHash := not_not.mp hhash
        refine Safe.ret fun s _ hheld => ?_
        rw [held, if_pos hsame] at hheld
        exact hheld

/-- A session so authorised may be published: the request holds the credential with that
password, or it holds none and relies on the proviso. -/
def vouched (i : ℕ) (userId : Uuid) (authorisedBy : Option ℕ) :
    Assertion (signInContract hsalt) i where
  holds db := (∀ g, authorisedBy = some g → Holding i userId g db) ∨ HoldsNone i db
  stable := fun hne _ _ hg h =>
    h.imp (fun h g ha => (h g ha).stable hne hg) fun h => h.stable hne hg
  tick := fun _ _ h => h

/-- **A session that is vouched for may be published.** -/
theorem safe_issueSession {begun now : Instant} {authorisedBy : Option ℕ}
    (hR : ∀ k s db b db', R.holds db →
      Query.run env (.sessions (.insert k s)) i db = some (b, db') → R.holds db') :
    Safe (Assertion.onOk (fun _ => (committable hsalt i).and R) fun _ => .any)
      (issueSession env i userId begun now authorisedBy).run
      (((inside hsalt i fun _ _ => False).and R).and (vouched hsalt i userId authorisedBy)) := by
  refine Safe.query_andThen (fun _ => (committable hsalt i).and R) ?_ fun inserted => ?_
  · intro db b db' hs h _ hr
    obtain ⟨⟨⟨hclear, hpend⟩, hRdb⟩, hvouched⟩ := h
    rw [authService_run] at hr
    obtain ⟨hs', hg, hcred, hcom, hkept, hnew⟩ := signIn_insert hsalt hs hr
    refine ⟨hs', hg, ⟨?_, ?_⟩, hR _ _ db b db' hRdb hr⟩
    · intro u d hu k s g' hk hg' hsu
      rw [hcred] at hu
      rw [hcom] at hk
      rcases hclear u d hu k s g' hk hg' hsu with hgen' | ⟨v, hv⟩ | hp
      · exact Or.inl hgen'
      · exact Or.inr (Or.inl (hkept k v hv))
      · exact hp.elim
    · intro k s g' hk hg'
      rw [hcred]
      rcases hnew k s hk with hold | rfl
      · exact absurd hg' (hpend k s g' hold)
      · rcases hvouched with hheld | hnone
        · exact Or.inl (hheld g' hg'.2)
        · exact Or.inr (hnone userId)
  · cases inserted
    · exact Safe.ret fun _ _ _ => trivial
    · exact Safe.ret fun _ _ h => h

theorem vouched_of_holding (h : (holding hsalt i userId g).holds db) :
    (vouched hsalt i userId (some g)).holds db :=
  Or.inl fun _ ha => Option.some.inj ha ▸ h

theorem fresh_insert {k : Uuid} {s : Session} {b : Bool} (h : (fresh hsalt i).holds db)
    (hr : Query.run env (.sessions (.insert k s)) i db = some (b, db')) :
    (fresh hsalt i).holds db' := by
  have hcred : db'.credentials = db.credentials := Query.credentials_of_spares rfl hr
  have h' : UnwrittenIn i db := h
  show UnwrittenIn i db'
  rw [UnwrittenIn, hcred]
  exact h'

/-- The queries that issue a challenge, while the credential is held. -/
theorem keeps_revalidated {q : Query β} (hq : q.quiet = true) :
    (signInContract hsalt).Keeps (revalidated hsalt i userId g) q :=
  keeps_and_holding hsalt
    (keeps_and_fresh hsalt (keeps_inside hsalt hq) (Query.newHash_of_quiet hq)) hq

theorem committable_of_inside (h : (inside hsalt i fun _ _ => False).holds db) :
    (committable hsalt i).holds db :=
  ⟨h.1, h.2.ready⟩

theorem safe_completeLogin {remembered : Bool} {now : Instant} :
    Safe (Assertion.onOk (fun _ => begun hsalt i) fun _ => .any)
      (completeLogin env i userId verifiedHash g remembered now).run
      (verified hsalt i userId verifiedHash g) := by
  refine safe_inTransaction hsalt (fun db => fresh_commit hsalt) fun t => ?_
  refine Safe.keep_andThen (fun _ => trivial) (fun _ _ _ _ => trivial) fun current => ?_
  refine Safe.andThen (fun _ => revalidated hsalt i userId g)
    (safe_revalidate hsalt) fun user => ?_
  refine Safe.keep_andThen (each_onCredential (keeps_revalidated hsalt rfl))
    (fun _ _ _ _ => trivial) fun _ => ?_
  cases remembered
  · rcases user.email with _ | address
    · exact Safe.ret fun _ _ _ => trivial
    · refine Safe.keep_andThen (each_issueChallenge ⟨fun _ _ => keeps_revalidated hsalt rfl,
        fun _ _ => keeps_revalidated hsalt rfl, fun _ => keeps_revalidated hsalt rfl⟩)
        (fun _ _ _ _ => trivial) fun challenge => ?_
      exact Safe.ret fun db _ h => ⟨committable_of_inside hsalt h.1.1, h.1.2⟩
  · have hissue : Safe (Assertion.onOk (fun _ => (committable hsalt i).and (fresh hsalt i))
        fun _ => .any) (issueSession env i userId t now (some g)).run (revalidated hsalt i userId g) :=
      (safe_issueSession hsalt fun k s db b db' => fresh_insert hsalt).mono fun db _ h => ⟨h.1, vouched_of_holding hsalt h.2⟩
    refine Safe.andThen _ hissue fun session => ?_
    exact Safe.ret fun _ _ h => h

/-- A rehash stores a hash of the password that is stored. -/
theorem signIn_upgradeHash {expected password : Text} {b : Option Unit} (hs : SignInInv env db)
    (h : (begun hsalt i).holds db)
    (hr : Query.run env (.credentials .auto (.upgradeHash userId expected (env.hash i password)))
      i db = some (b, db')) : SignInInv env db' ∧ SignInStep i db db' := by
  obtain ⟨hs', hg, -⟩ := signIn_auto rfl hs (HistoryInv.of_write hsalt rfl hs.history h.2 hr) h.1 hr
  exact ⟨hs', hg⟩

/-- What the first phase of a login knows. -/
def prechecked (i : ℕ) : Precheck → Assertion (signInContract hsalt) i
  | .proceed userId verifiedHash g => verified hsalt i userId verifiedHash g
  | _ => .any

theorem keeps_begun {q : Passwords.Query β} (hq : q.replaces = false) (hw : q.newHash = none) :
    (signInContract hsalt).Keeps (begun hsalt i) (.credentials .auto q) :=
  keeps_and_fresh hsalt (keeps_auto hsalt hq hw) hw

theorem safe_loginPrecheck {email : Text} {now : Instant} :
    Safe (Assertion.onOk (prechecked hsalt i) fun _ => .any) (loginPrecheck env email now).run
      (begun hsalt i) := by
  refine Safe.keep_andThen (fun _ => trivial) (fun _ _ _ _ => trivial) fun found => ?_
  rcases found with _ | ⟨userId, user⟩
  · exact Safe.ret fun _ _ _ => trivial
  · dsimp only
    split_ifs
    · exact Safe.ret fun _ _ _ => trivial
    · refine Safe.look_andThen (readCredential hsalt i userId) (fun db => readCredential_row hsalt)
        fun credential => ?_
      rcases credential with _ | credential
      · exact Safe.ret fun _ _ _ => trivial
      · dsimp only
        split_ifs
        · exact Safe.ret fun _ _ _ => trivial
        · refine Safe.keep_andThen (Action.each_andThen (fun _ => trivial) fun t =>
            Action.each_andThen (each_onCredential ?_) fun _ => trivial)
            (fun _ _ _ _ => trivial) fun _ => ?_
          · exact keeps_and_seen hsalt (keeps_begun hsalt rfl rfl)
          · exact Safe.ret fun _ _ h => h
        · exact Safe.ret fun _ _ h => h

theorem signIn_login {email password : Text} {device : Option DeviceCookie} :
    Safe (fun _ => .any) (login env i email password device).run (begun hsalt i) := by
  refine Safe.keep_andThen (fun _ => trivial) (fun _ _ _ _ => trivial) fun now => ?_
  refine Safe.andThen (prechecked hsalt i) (safe_loginPrecheck hsalt) fun precheck => ?_
  cases precheck with
  | proceed userId verifiedHash generation =>
    dsimp only
    split
    · have hkeep : ∀ t, (signInContract hsalt).Keeps
          (verified hsalt i userId verifiedHash generation)
          (.credentials .auto (.recordFailure userId t)) :=
        fun t => keeps_and_seen hsalt (keeps_begun hsalt rfl rfl)
      exact (Safe.keep (each_refuseLogin hkeep)).conseq (fun _ _ h => h) fun _ _ _ _ => trivial
    · refine Safe.andThen (fun _ => begun hsalt i) (safe_completeLogin hsalt) fun response => ?_
      refine Safe.andThen (fun _ => .any) ?_ fun _ => Safe.ret fun _ _ _ => trivial
      unfold upgradeHashIfNeeded
      split
      · refine Safe.andThen (fun _ => .any) (safe_onCredential _ (fun _ _ _ => trivial) ?_)
          fun _ => Safe.ret fun _ _ _ => trivial
        intro db b db' hs h _ hr
        obtain ⟨hs', hg⟩ := signIn_upgradeHash hsalt hs h hr
        exact ⟨hs', hg, trivial⟩
      · exact Safe.ret fun _ _ _ => trivial
  | noAccount => exact Safe.ret fun _ _ _ => trivial
  | inactive userId => exact Safe.ret fun _ _ _ => trivial
  | noPassword userId => exact Safe.ret fun _ _ _ => trivial
  | locked userId => exact Safe.ret fun _ _ _ => trivial

/-! ### Sign-ins by code -/

/-- A statement on the tokens or the accounts, outside or inside a transaction. -/
theorem keeps_begun_of_spares {q : Query β} (hq : q.quiet = true)
    (hspare : q.sparesCredentials = true) : (signInContract hsalt).Keeps (begun hsalt i) q :=
  keeps_and_fresh hsalt (keeps_outside hsalt hq hspare) (Query.newHash_of_quiet hq)

theorem safe_completeLoginCode {authorisedBy : Option ℕ} {now : Instant} :
    Safe (Assertion.onOk (fun _ => (outside hsalt i).and .any) fun _ => .any)
      (completeLoginCode env i userId authorisedBy now).run (begun hsalt i) := by
  refine safe_inTransaction hsalt (fun _ h => h) fun t => ?_
  refine Safe.keep_andThen (fun _ => trivial) (fun _ _ _ _ => trivial) fun user => ?_
  rcases user with _ | user
  · exact Safe.ret fun _ _ _ => trivial
  · dsimp only
    split_ifs
    · exact Safe.ret fun _ _ _ => trivial
    · refine Safe.keep_andThen (each_markEmailVerified (keeps_begun_of_spares hsalt rfl rfl))
        (fun _ _ _ _ => trivial) fun _ => ?_
      refine Safe.keep_andThen (fun _ => trivial) (fun _ _ _ _ => trivial) fun user => ?_
      rcases user with _ | user
      · exact Safe.ret fun _ _ _ => trivial
      · -- no credential is held, so the commit has to rely on the proviso
        exact (safe_issueSession hsalt fun _ _ _ _ _ h _ => h).mono fun db _ h => ⟨⟨⟨h.1.1.cleared _, h.1.2⟩, trivial⟩, Or.inr h.1.1⟩

theorem signIn_verifyLoginCode {challengeId : Uuid} {code : Text} :
    Safe (fun _ => .any) (verifyLoginCode env i challengeId code).run (begun hsalt i) := by
  refine Safe.keep_andThen (fun _ => trivial) (fun _ _ _ _ => trivial) fun now => ?_
  refine Safe.keep_andThen (fun _ => trivial) (fun _ _ _ _ => trivial) fun spentAt => ?_
  refine Safe.keep_andThen (each_verifyCode (keeps_begun_of_spares hsalt rfl rfl))
    (fun _ _ _ _ => trivial) fun outcome => ?_
  cases outcome with
  | wrong => exact Safe.ret fun _ _ _ => trivial
  | gone => exact Safe.ret fun _ _ _ => trivial
  | matched userId authorisedBy =>
    exact Safe.andThen _ (safe_completeLoginCode hsalt) fun session =>
      Safe.ret fun _ _ _ => trivial

/-! ### Replacing a password -/

/-- The sessions of the account are still to be looked at, all but those that are spared. -/
def sparing (i : ℕ) (userId : Uuid) (except : Option Uuid) (ks : List Uuid) :
    Assertion (signInContract hsalt) i :=
  inside hsalt i fun u k => u = userId ∧ (k ∈ ks ∨ except = some k)

/-- A request that is replacing a password has swapped the hash. -/
def replacing (i : ℕ) (userId : Uuid) : Assertion (signInContract hsalt) i :=
  inside hsalt i fun u _ => u = userId

theorem Cleared.mono {pend pend' : Uuid → Uuid → Prop} (h : Cleared i pend db)
    (hp : ∀ u k, pend u k → pend' u k) : Cleared i pend' db :=
  fun u c hu k s g hk hg hsu => (h u c hu k s g hk hg hsu).imp_right (Or.imp_right (hp u k))

theorem any_commit (h : (Assertion.any : Assertion (signInContract hsalt) i).holds db) :
    (Assertion.any : Assertion (signInContract hsalt) i).holds (db.commit i) :=
  h

theorem keeps_sparing {except : Option Uuid} {ks : List Uuid} {q : Query β} (hq : q.quiet = true) :
    (signInContract hsalt).Keeps ((sparing hsalt i userId except ks).and .any) q := by
  intro db b db' hs h hC hr
  obtain ⟨hs', hg, hin⟩ := keeps_inside hsalt hq db b db' hs h.1 hC hr
  exact ⟨hs', hg, hin, trivial⟩

/-- **The revocation of every session of the account**, one statement for each row of
its snapshot. -/
theorem safe_revokeAllForUser {reason : RevocationReason} {except : Option Uuid} {now : Instant}
    (hR : ∀ {β : Type} (q : Query β) db b db', q.quiet = true → R.holds db →
      Query.run env q i db = some (b, db') → R.holds db') :
    Safe (Assertion.onOk (fun _ => (sparing hsalt i userId except []).and R) fun _ => .any)
      (revokeAllForUser userId reason except now).run
      ((replacing hsalt i userId).and R) := by
  refine Safe.look_andThen (fun live => (sparing hsalt i userId except live).and R) ?_ fun live => ?_
  · intro db hs h
    refine ⟨⟨?_, h.1.2⟩, h.2⟩
    intro u c hu k s g hk hg hsu
    rcases h.1.1 u c hu k s g hk hg hsu with hgen | hheld | rfl
    · exact Or.inl hgen
    · exact Or.inr (Or.inl hheld)
    · -- the snapshot has every published session that is not revoked, but the spared one
      rcases Slot.visible_cases i (db.sessions.slot k) with hi | hpub
      · exact Or.inr (Or.inl ⟨_, hi⟩)
      · right; right
        refine ⟨rfl, ?_⟩
        by_cases hexc : except = some k
        · exact Or.inr hexc
        · refine Or.inl (Table.mem_scan.mpr ⟨s, hpub.trans hk, ?_⟩)
          simp [hsu, hg.1, hexc]
  · refine Safe.bind (Safe.countEach (fun ks => (sparing hsalt i userId except ks).and R) ?_ live)
      fun n => ?_
    · intro k ks
      refine Safe.query (fun _ => (sparing hsalt i userId except ks).and R) ?_
        fun _ => Safe.ret fun _ _ h => h
      intro db b db' hs h _ hr
      have hq : (Query.sessions (.revokeOf k userId reason except now)).quiet = true := rfl
      obtain ⟨hs', hg, hin⟩ := keeps_inside hsalt hq db b db' hs h.1 trivial hr
      refine ⟨hs', hg, ⟨?_, hin.2⟩, hR _ db b db' hq h.2 hr⟩
      by_cases hexc : except = some k
      · refine hin.1.mono fun u l hl => ⟨hl.1, ?_⟩
        rcases hl.2 with hmem | hl
        · rcases List.mem_cons.mp hmem with rfl | hmem
          · exact Or.inr hexc
          · exact Or.inl hmem
        · exact Or.inr hl
      · rw [authService_run] at hr
        have hrev := Cleared.revoke rfl hs h.1.1 hr fun s (hsu : s.userId = userId) hlive => by
          simp [Sessions.Query.act, Table.updating, hsu, hlive, hexc]
        refine hrev.mono fun u l hl => ?_
        obtain ⟨⟨rfl, hmem | hspared⟩, hne⟩ := hl
        · rcases List.mem_cons.mp hmem with rfl | hmem
          · exact absurd ⟨rfl, rfl⟩ hne
          · exact ⟨rfl, Or.inl hmem⟩
        · exact ⟨rfl, Or.inr hspared⟩
    · exact Safe.ret fun _ _ h => h

/-- The revocation of the one session that was spared. -/
theorem safe_revokeSession {sessionId : Uuid} {reason : RevocationReason} {now : Instant}
    (hR : ∀ {β : Type} (q : Query β) db b db', q.quiet = true → R.holds db →
      Query.run env q i db = some (b, db') → R.holds db') :
    Safe (Assertion.onOk (fun _ => (inside hsalt i fun _ _ => False).and R) fun _ => .any)
      (revokeSession sessionId reason now).run
      ((sparing hsalt i userId (some sessionId) []).and R) := by
  refine Safe.read (fun hit => if hit then (sparing hsalt i userId (some sessionId) []).and R
    else (inside hsalt i fun _ _ => False).and R) ?_ fun hit => ?_
  · intro db hs h
    split_ifs with hhit
    · exact h
    · refine ⟨⟨?_, h.1.2⟩, h.2⟩
      intro u c hu k s g hk hg hsu
      rcases h.1.1 u c hu k s g hk hg hsu with hgen | hheld | ⟨rfl, hmem | hspared⟩
      · exact Or.inl hgen
      · exact Or.inr (Or.inl hheld)
      · cases hmem
      · -- it is not there to be revoked, unless the request holds it already
        obtain rfl := Option.some.inj hspared
        rcases Slot.visible_cases i (db.sessions.slot sessionId) with hi | hpub
        · exact Or.inr (Or.inl ⟨_, hi⟩)
        · refine absurd ?_ hhit
          rw [Table.row, hpub, hk]
          simp [hg.1]
  · cases hit
    · exact Safe.ret fun _ _ h => h
    · refine Safe.query (fun _ => (inside hsalt i fun _ _ => False).and R) ?_ fun done => ?_
      · intro db b db' hs h _ hr
        have hq : (Query.sessions (.revoke sessionId reason now)).quiet = true := rfl
        obtain ⟨hs', hg, hin⟩ := keeps_inside hsalt hq db b db' hs h.1 trivial hr
        refine ⟨hs', hg, ⟨?_, hin.2⟩, hR _ db b db' hq h.2 hr⟩
        rw [authService_run] at hr
        have hrev := Cleared.revoke rfl hs h.1.1 hr fun s (hsu : s.userId = userId) hlive => by
          simp [Sessions.Query.act, Table.updating, hlive]
        refine hrev.mono fun u l hl => ?_
        obtain ⟨⟨rfl, hmem | hspared⟩, hne⟩ := hl
        · cases hmem
        · exact hne ⟨rfl, (Option.some.inj hspared).symm⟩
      · exact Safe.ret fun _ _ h => h

/-- A statement that stores a new password: every session of the account is still to be
looked at. -/
theorem signIn_replace {q : Passwords.Query β} {password : Text} {b : β}
    (hw : q.newHash = some (env.hash i password)) (hs : SignInInv env db)
    (hin : (inside hsalt i fun _ _ => False).holds db) (hfresh : (fresh hsalt i).holds db)
    (hr : Query.run env (.credentials .tx q) i db = some (b, db')) :
    SignInInv env db' ∧ SignInStep i db db' ∧ (replacing hsalt i q.key).holds db' := by
  have hw' : (Query.credentials .tx q).newHash = some (env.hash i password) := hw
  have hist := HistoryInv.of_write hsalt hw' hs.history hfresh hr
  obtain ⟨t, ht, rfl⟩ := Query.run_credentials hr
  have hcom := Table.committed_modify ht
  obtain ⟨hs', hg⟩ := hs.quiet hist (Table.Moves.refl i _) (fun _ => rfl)
    fun u c hc => ⟨c, (hcom u).trans hc, rfl⟩
  refine ⟨hs', hg, ?_, hin.2⟩
  intro u c hu k s g hk hg' hsu
  rcases Table.lock_modify ht hu with hold | ⟨rfl, -⟩
  · exact (hin.1 u c hold k s g hk hg' hsu).imp_right (Or.imp_right False.elim)
  · exact Or.inr (Or.inr rfl)

/-- What the swap of a change leaves: the request holds the credential with a password of
the next generation. -/
def swappedTo (i : ℕ) (userId : Uuid) (g : ℕ) : Option Unit → Assertion (signInContract hsalt) i
  | some _ => (replacing hsalt i userId).and (holding hsalt i userId (g + 1))
  | none => .any

theorem signIn_replaceHash {expected password : Text} {b : Option Unit} (hs : SignInInv env db)
    (h : (revalidated hsalt i userId g).holds db)
    (hr : Query.run env (.credentials .tx (.replaceHash userId expected (env.hash i password))) i
      db = some (b, db')) :
    SignInInv env db' ∧ SignInStep i db db' ∧ (swappedTo hsalt i userId g b).holds db' := by
  obtain ⟨⟨hin, hfresh⟩, c, hc, hgen⟩ := h
  obtain ⟨hs', hg, hrep⟩ := signIn_replace hsalt rfl hs hin hfresh hr
  refine ⟨hs', hg, ?_⟩
  obtain ⟨t, ht, rfl⟩ := Query.run_credentials hr
  obtain ⟨-, hans, -⟩ := Table.modify_cases ht
  rcases b with _ | u
  · trivial
  · obtain ⟨c', hrow, -, hput⟩ := Passwords.replaceHash_answer (by rw [← hans]; nofun)
    rw [Table.row, Passwords.Query.key, Slot.visible_of_held hc] at hrow
    obtain rfl := Option.some.inj hrow
    exact ⟨hrep, _, congrArg Slot.lock (Table.slot_modify ht hput), congrArg (· + 1) hgen⟩

theorem safe_revalidateForChange {now : Instant} :
    Safe (Assertion.onOk (fun _ => revalidated hsalt i userId g) fun _ => .any)
      (revalidateForChange userId verifiedHash now).run
      (verified hsalt i userId verifiedHash g) := by
  refine Safe.bind (safe_revalidate hsalt) fun r => ?_
  rcases r with e | user
  · cases e <;> exact Safe.ret fun _ _ _ => trivial
  · exact Safe.ret fun _ _ h => h

/-- What is held is held after any statement that neither replaces nor inserts. -/
theorem holding_quiet {q : Query β} {b : β} (hq : q.quiet = true)
    (h : (holding hsalt i userId g).holds db) (hr : Query.run env q i db = some (b, db')) :
    (holding hsalt i userId g).holds db' :=
  (Query.quiet_run hq hr).holding h

theorem safe_swapAll {sessionId : Uuid} {newPassword : Text} {now : Instant} :
    Safe (Assertion.onOk (fun _ => (outside hsalt i).and .any) fun _ => .any)
      (swapPassword env i userId sessionId verifiedHash (env.hash i newPassword) g now).run
      (verified hsalt i userId verifiedHash g) := by
  refine safe_inTransaction hsalt (fun _ h => h) fun t => ?_
  refine Safe.keep_andThen (fun _ => trivial) (fun _ _ _ _ => trivial) fun current => ?_
  refine Safe.andThen _ (safe_revalidateForChange hsalt) fun user => ?_
  refine Safe.andThen (swappedTo hsalt i userId g) (safe_onCredential _ (fun _ _ _ => trivial) ?_)
    fun replaced => ?_
  · intro db b db' hs h _ hr
    exact signIn_replaceHash hsalt hs h hr
  · rcases replaced with _ | done
    · exact Safe.ret fun _ _ _ => trivial
    · -- every other session of the account, then the calling one, then its successor
      refine Safe.andThen _ (safe_revokeAllForUser hsalt fun q db b db' =>
        holding_quiet hsalt) fun n => ?_
      refine Safe.andThen _ (safe_revokeSession hsalt fun q db b db' =>
        holding_quiet hsalt) fun hit => ?_
      have hissue : Safe (Assertion.onOk (fun _ => (committable hsalt i).and .any) fun _ => .any)
          (issueSession env i userId t now (some (g + 1))).run
          ((inside hsalt i fun _ _ => False).and (holding hsalt i userId (g + 1))) :=
        (safe_issueSession hsalt fun _ _ _ _ _ h _ => h).mono fun db _ h =>
          ⟨⟨h.1, trivial⟩, vouched_of_holding hsalt h.2⟩
      exact Safe.andThen _ hissue fun session => Safe.ret fun _ _ h => h

theorem signIn_changePassword {sessionId : Uuid} {current new : Text} :
    Safe (fun _ => .any) (changePassword env i userId sessionId current new).run
      (begun hsalt i) := by
  refine Safe.keep_andThen (fun _ => trivial) (fun _ _ _ _ => trivial) fun now => ?_
  refine Safe.keep_andThen (fun _ => trivial) (fun _ _ _ _ => trivial) fun user => ?_
  rcases user with _ | user
  · exact Safe.ret fun _ _ _ => trivial
  · refine Safe.look_andThen (readCredential hsalt i userId) (fun db => readCredential_row hsalt)
      fun credential => ?_
    rcases credential with _ | credential
    · exact Safe.ret fun _ _ _ => trivial
    · dsimp only
      split
      · exact Safe.ret fun _ _ _ => trivial
      · rcases checkPolicy env new (user.email.getD []) with _ | refusal
        · dsimp only
          split
          · exact Safe.ret fun _ _ _ => trivial
          · exact (safe_swapAll hsalt).any_post
        · exact Safe.ret fun _ _ _ => trivial

theorem signIn_confirmPasswordReset {token new : Text} :
    Safe (fun _ => .any) (confirmPasswordReset env i token new).run (begun hsalt i) := by
  refine Safe.keep_andThen (fun _ => trivial) (fun _ _ _ _ => trivial) fun asked => ?_
  refine Safe.keep_andThen (fun _ => trivial) (fun _ _ _ _ => trivial) fun owner => ?_
  rcases owner with _ | userId
  · exact Safe.ret fun _ _ _ => trivial
  · refine Safe.keep_andThen (fun _ => trivial) (fun _ _ _ _ => trivial) fun user => ?_
    rcases user with _ | user
    · exact Safe.ret fun _ _ _ => trivial
    · dsimp only
      split_ifs
      · exact Safe.ret fun _ _ _ => trivial
      · rcases checkPolicy env new (user.email.getD []) with _ | refusal
        · refine Safe.any_post (safe_inTransaction hsalt (fun _ => any_commit hsalt) fun t => ?_)
          refine Safe.keep_andThen (each_consumeLink fun _ => keeps_begun_of_spares hsalt rfl rfl)
            (fun _ _ _ _ => trivial) fun spent => ?_
          rcases spent with _ | owner
          · exact Safe.ret fun _ _ _ => trivial
          · refine Safe.query_andThen (fun _ => (replacing hsalt i userId).and .any) ?_ fun _ => ?_
            · intro db b db' hs h _ hr
              rw [authService_run] at hr
              obtain ⟨hs', hg, hrep⟩ := signIn_replace hsalt rfl hs
                ⟨h.1.1.cleared _, h.1.2⟩ h.2 hr
              exact ⟨hs', hg, hrep, trivial⟩
            · refine Safe.andThen _ (safe_revokeAllForUser hsalt fun _ _ _ _ _ h _ => h)
                fun n => ?_
              refine Safe.keep_andThen (each_markEmailVerified (keeps_sparing hsalt rfl))
                (fun _ _ _ _ => trivial) fun _ => ?_
              refine Safe.ret fun db _ h => ⟨⟨h.1.1.mono ?_, h.1.2.ready⟩, trivial⟩
              rintro u k ⟨-, hmem | hspared⟩
              · cases hmem
              · cases hspared
        · exact Safe.ret fun _ _ _ => trivial

/-! ### The other requests -/

/-- A request that neither replaces a password nor signs anyone in. -/
theorem signIn_bystander {p : Serving Response} (h : p.run.Each fun q =>
      (signInContract hsalt).Keeps (inside hsalt i fun _ _ => False) q) :
    Safe (fun _ => .any) p.run (begun hsalt i) :=
  (Safe.keep h).any_post.mono fun _ _ hb => ⟨hb.1.1.cleared _, hb.1.2⟩

/-- The queries that issue a token, in any transaction. -/
theorem issues_inside {purpose : Purpose} {authorisedBy : Option ℕ} :
    Issues (fun q => (signInContract hsalt).Keeps (inside hsalt i fun _ _ => False) q) i userId
      purpose authorisedBy :=
  ⟨fun _ _ => keeps_inside hsalt rfl, fun _ _ => keeps_inside hsalt rfl,
    fun _ => keeps_inside hsalt rfl⟩

/-- **Every request is safe.** -/
theorem signIn_serve (i : ℕ) (r : Request) :
    Safe (fun _ => .any) ((authService env).program i r) (begun hsalt i) := by
  cases r with
  | login email password device => exact signIn_login hsalt
  | verifyLoginCode challengeId code => exact signIn_verifyLoginCode hsalt
  | changePassword userId sessionId current new => exact signIn_changePassword hsalt
  | confirmPasswordReset token new => exact signIn_confirmPasswordReset hsalt
  | resendLoginCode challengeId =>
    exact signIn_bystander hsalt (each_resendLoginCode (keeps_commit hsalt) (keeps_rollback hsalt)
      fun _ _ => issues_inside hsalt)
  | requestPasswordReset email =>
    exact signIn_bystander hsalt (each_requestPasswordReset (keeps_commit hsalt)
      (keeps_rollback hsalt) fun _ => issues_inside hsalt)
  | requestEmailVerification userId newEmail =>
    exact signIn_bystander hsalt (each_requestEmailVerification (keeps_commit hsalt)
      (keeps_rollback hsalt) (issues_inside hsalt))
  | confirmEmail userId challengeId code email =>
    exact signIn_bystander hsalt (each_confirmEmail (keeps_commit hsalt) (keeps_rollback hsalt)
      (fun _ => keeps_inside hsalt rfl) (fun _ => keeps_inside hsalt rfl)
      fun _ => keeps_inside hsalt rfl)
  | logout sessionId =>
    exact signIn_bystander hsalt (each_logout (keeps_commit hsalt) (keeps_rollback hsalt)
      fun _ => keeps_inside hsalt rfl)
  | logoutAll userId =>
    exact signIn_bystander hsalt (each_logoutAll (keeps_commit hsalt) (keeps_rollback hsalt)
      fun _ _ => keeps_inside hsalt rfl)

end Requests

/-! ### The result -/

/-- **No session survives a replaced password**, in the runs that keep the proviso: every
published session that is not revoked was authorised by the password that is stored. -/
theorem sessions_current (hsalt : ∀ i j p q, env.hash i p = env.hash j q → i = j) {db₀ : Db}
    (h₀ : AtRest env db₀) (hfree : ∀ k, (db₀.sessions.slot k).lock = none)
    (hcur : SessionsCurrent db₀) {c : Config ℕ Db Request (Except AppError Response) Query}
    (h : Reachable (authService env) codeSignInsCurrent (.initial db₀) c) :
    SessionsCurrent c.db := by
  have hbegun : ∀ i, (begun hsalt i).holds db₀ := by
    intro i
    refine ⟨⟨fun u v hu => ?_, fun k s g hk => ?_⟩, h₀.unwrittenIn i⟩
    · rw [h₀.unlocked u] at hu
      cases hu
    · rw [hfree k] at hk
      cases hk
  exact ((signInContract hsalt).of_reachable (signIn_serve hsalt) ⟨h₀.historyInv, hcur⟩
    hbegun h).1.current

/-! ### Two runs -/

/-- The code that process 1 mailed came back, at process 3. -/
def codeRequest : Request := .verifyLoginCode 1 (generateCode .plain 1)

/-- A sign-in by code with nothing in between. -/
def signedInByCode : List (Event ℕ Request) :=
  .arrive 1 signInRequest :: List.replicate 13 (.run 1) ++
    .arrive 3 codeRequest :: List.replicate 11 (.run 3)

/-- A check that implies the proviso: a commit publishes sessions of the stored password
only, and finds its credential free. -/
def publishesCurrent {β : Type} (_ : ℕ) : Query β → Db → Bool
  | .commit, db => db.sessions.keys.all fun k => match (db.sessions.slot k).lock with
    | some (_, some s) => (db.credentials.slot s.userId).lock.isNone &&
      (db.credentials.slot s.userId).committed.any fun c => some c.generation = s.authorisedBy
    | _ => true
  | _, _ => true

theorem codeSignInsCurrent_of_check {q : Query β} (h : publishesCurrent i q db = true) :
    codeSignInsCurrent i q db := by
  cases q with
  | commit =>
    intro k s g hk hg _
    have hmem : k ∈ db.sessions.keys := by
      by_contra hk'
      rw [db.sessions.empty_of_not_mem k hk'] at hk
      cases hk
    have hpass := List.all_eq_true.mp h k hmem
    rw [hk] at hpass
    dsimp only at hpass
    rw [Bool.and_eq_true, Option.isNone_iff_eq_none, Option.any_eq_true] at hpass
    obtain ⟨hfree, c, hc, hgen⟩ := hpass
    refine ⟨⟨c, hc, ?_⟩, fun j c hl => ?_⟩
    · exact Option.some.inj ((of_decide_eq_true hgen).trans hg.2)
    · rw [hfree] at hl
      cases hl
  | _ => trivial

theorem sessions_current_signedInByCode :
    ∃ c, Reachable (authService .plain) codeSignInsCurrent (.initial oneAccount) c ∧
      (∃ s, (c.db.sessions.slot 3).committed = some s ∧ s.authorisedBy = some 0) ∧
      SessionsCurrent c.db := by
  have hrun : (exec ((authService .plain).guarded publishesCurrent) signedInByCode
      (.initial oneAccount)).isSome = true := by decide
  have hreach : Reachable (authService .plain) codeSignInsCurrent (.initial oneAccount)
      (afterRun _ _ _ hrun) :=
    reachable_of_guarded (fun _ _ _ => codeSignInsCurrent_of_check) (reachable_afterRun hrun)
  refine ⟨_, hreach, ⟨_, rfl, rfl⟩, ?_⟩
  exact sessions_current Env.plain_salt oneAccount_atRest (fun _ => rfl) nofun hreach

/-- The same sign-in, around a change of the password. -/
def signedInLate : List (Event ℕ Request) :=
  .arrive 1 signInRequest :: List.replicate 13 (.run 1) ++
    .arrive 2 (changeTo "second password") :: List.replicate 14 (.run 2) ++
    .arrive 3 codeRequest :: List.replicate 11 (.run 3)

/-- **A challenge outlives the password it was opened with**: the code mailed before a
change of the password mints a session after it. -/
theorem session_of_replaced_password :
    ∃ c, Reachable (authService .plain) anyQuery (.initial oneAccount) c ∧
      (∃ session, c.Served 2 (changeTo "second password") (.ok (.rotated session))) ∧
      (∃ s cred, (c.db.sessions.slot 3).committed = some s ∧ s.live c.db.clock = true ∧
        s.authorisedBy = some 0 ∧
        (c.db.credentials.slot s.userId).committed = some cred ∧ cred.generation = 1) ∧
      ¬ SessionsCurrent c.db := by
  have hrun : (exec (authService .plain) signedInLate (.initial oneAccount)).isSome = true := by
    decide
  refine ⟨_, reachable_afterRun hrun, ⟨⟨2, ['t', 't'], 2000⟩, rfl⟩,
    ⟨_, _, rfl, rfl, rfl, rfl, rfl⟩, fun hcur => ?_⟩
  obtain ⟨cred, hcred, hgen⟩ := hcur 3 _ 0 rfl ⟨rfl, rfl⟩
  cases hcred
  cases hgen

end Marketplace
