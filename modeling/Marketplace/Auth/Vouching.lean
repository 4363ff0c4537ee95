import Marketplace.Auth.Addresses
import Marketplace.Auth.FederatedSignIn
import Marketplace.Auth.Firebase
import Marketplace.ReadCommitted.Truthful

/-!
# Addresses that a token vouches for

A sign-in marks the address of an account as verified when the token vouches for it. In whatever
run, the account that is marked has by then the address that the token claims, unless the token
recovers one from its identities: an account may change between the statement that reads it and
the one that marks it, but as long as it is not verified it does not
(`Marketplace.UserLater`).
-/

namespace Marketplace.Accounts

open ReadCommitted Firebase

/-- The surroundings, with a verifier of tokens. -/
def Surroundings.verifying (env : Surroundings) (v : Verifier) : Surroundings :=
  { env with verifyToken := v.verify }

/-- The query writes an account that is there: it marks its address as verified. -/
def Query.marks {β : Type} : Query β → Prop
  | .service (.users _) => True
  | _ => False

/-- **The account that is marked has the address that the token claims**, unless the token recovers
one. -/
def MarksClaimed (v : Verifier) (i : ℕ) (r : Request) (db db' : Db) : Prop :=
  match r with
  | .signInWithProvider _ token _ _ _ => ∀ claims, v.decode i token = .ok claims →
      ¬ claims.Recovers → ∀ k user, db.auth.users.row i k = some user →
        db'.auth.users.row i k ≠ some user → claims.Claims user
  | _ => True

variable {env : Surroundings} {v : Verifier} {i : ℕ} {β : Type} {b : β} {db db' : Db}

/-! ### What accounts keep -/

/-- **What marks nothing verifies nobody**: it makes accounts at most. -/
theorem effect_of_not_marks {q : Query β} (hq : ¬ q.marks)
    (h : q.run env.toEnv i db = some (b, db')) :
    Table.Effect (fun _ o _ => o = none) i db.auth.users db'.auth.users := by
  cases q with
  | service q =>
    obtain ⟨auth, hq', rfl⟩ := run_service h
    cases q with
    | credentials m q =>
      obtain ⟨t, -, rfl⟩ := Marketplace.Query.run_credentials hq'
      exact .keep _
    | tokens m q =>
      obtain ⟨t, -, rfl⟩ := Marketplace.Query.run_tokens hq'
      exact .keep _
    | sessions q =>
      obtain ⟨t, -, rfl⟩ := Marketplace.Query.run_sessions hq'
      exact .keep _
    | users q => exact absurd trivial hq
    | enqueue k email =>
      obtain ⟨t, -, rfl⟩ := Marketplace.Query.run_enqueue hq'
      exact .keep _
    | commit =>
      obtain rfl := Marketplace.Query.run_commit hq'
      exact .commit _
    | rollback =>
      obtain rfl := Marketplace.Query.run_rollback hq'
      exact .rollback _
  | touch k idle secs now =>
    rcases run_touch h with rfl | ⟨s, -, -, rfl⟩
    · exact .keep _
    · exact .keep _
  | insertUser user =>
    rcases run_insertUser h with ⟨-, rfl⟩ | ⟨-, rfl⟩
    · exact .keep _
    · have hfresh := Table.slot_fresh db.auth.users
      rw [← hfresh]
      refine .put .tx (by rw [hfresh]; rfl) ?_
      rw [Table.row, hfresh]
      rfl
  | insertCredential k hash =>
    obtain ⟨t, rfl⟩ := run_insertCredential h
    exact .keep _
  | insertIdentity identity =>
    rcases run_insertIdentity h with ⟨-, rfl⟩ | ⟨k, t, -, -, rfl⟩
    · exact .keep _
    · exact .keep _
  | touchLogin k now =>
    obtain ⟨t, -, rfl⟩ := run_touchLogin h
    exact .keep _

/-- What a query does to the accounts. -/
theorem users_effect {q : Query β} (h : q.run env.toEnv i db = some (b, db')) :
    Table.Effect (fun _ o u => UserLater o (some u)) i db.auth.users db'.auth.users := by
  by_cases hq : q.marks
  · cases q with
    | service q =>
      obtain ⟨auth, hq', rfl⟩ := run_service h
      exact (Marketplace.Query.effects hq').users.mono fun _ _ hA => UserLater.act hA
    | touch k idle secs now => exact hq.elim
    | insertUser user => exact hq.elim
    | insertCredential k hash => exact hq.elim
    | insertIdentity identity => exact hq.elim
    | touchLogin k now => exact hq.elim
  · refine (effect_of_not_marks hq h).mono fun k u (hnone : _ = none) => ?_
    rw [hnone]
    exact nofun

/-- What a step may do: accounts stay as they are until they are verified. -/
structure Settles (j : ℕ) (db db' : Db) : Prop where
  moves : Table.Moves j db.auth.users db'.auth.users
  grown : Table.Grown UserLater db.auth.users db'.auth.users

theorem settles_of_run {q : Query β} (hs : db.auth.users.Ordered UserLater)
    (h : q.run env.toEnv i db = some (b, db')) :
    db'.auth.users.Ordered UserLater ∧ Settles i db db' := by
  obtain ⟨hordered, hgrown⟩ :=
    (users_effect h).ordered UserLater.refl UserLater.trans hs fun _ _ hA => hA
  exact ⟨hordered, (users_effect h).moves, hgrown⟩

variable (env) in
/-- **The contract**: accounts stay as they are until they are verified. -/
def accountsContract : Contract (accounts env) anyQuery where
  inv db := db.auth.users.Ordered UserLater
  guar := Settles
  inv_tick _ hs := hs
  rollback hs _ h := by
    rw [accounts_run] at h
    exact settles_of_run hs h

theorem accountsContract_sound {q : Query β} : (accountsContract env).Sound q := by
  intro i db b db' hs _ h
  rw [accounts_run] at h
  exact settles_of_run hs h

/-- **The process has read the account**, which is the same until it is verified. -/
def readUser (env : Surroundings) (i : ℕ) (userId : Uuid) (user : User) :
    Assertion (accountsContract env) i where
  holds db := UserLater (some user) (db.auth.users.row i userId)
  stable := by
    intro j db db' hne _ _ hg h
    have hg : Settles j db db' := hg
    exact UserLater.trans _ _ _ h
      (Table.le_row_of_other hg.moves hg.grown UserLater.refl hne userId)
  tick _ _ h := h

/-- A query that leaves the accounts alone. -/
theorem keeps_readUser {userId : Uuid} {user : User} {q : Query β}
    (hq : ∀ i db b db', q.run env.toEnv i db = some (b, db') → db'.auth.users = db.auth.users) :
    (accountsContract env).Keeps (readUser env i userId user) q := by
  intro db b db' hs h hC hrun
  have hs : db.auth.users.Ordered UserLater := hs
  have hsame := hq i db b db' hrun
  obtain ⟨hs', hg⟩ := settles_of_run hs hrun
  refine ⟨hs', hg, ?_⟩
  show UserLater (some user) (db'.auth.users.row i userId)
  rw [hsame]
  exact h

/-! ### The account that is read -/

/-- What finding or making the account of an identity asks for. -/
theorem each_resolve {φ : {β : Type} → Query β → Prop} {provider : Provider}
    {identity : VerifiedIdentity} {intended : Option AccountType}
    {clientEmail clientDisplayName : Option Text} {now : Instant}
    (huser : ∀ user, φ (.insertUser user)) (hidentity : ∀ r, φ (.insertIdentity r))
    (htouch : ∀ k now, φ (.touchLogin k now)) :
    (resolve provider identity intended clientEmail clientDisplayName now).run.Each φ := by
  refine Action.each_andThen (fun _ => trivial) fun existing => ?_
  rcases existing with _ | ⟨id, link⟩
  · unfold arrive
    rcases intended with _ | accountType
    · exact trivial
    · refine Action.each_andThen (Prog.each_bind (each_insertUser fun user _ => huser user)
        fun inserted => ?_) fun user => Action.each_andThen
          (each_insertIdentity fun r _ _ _ => hidentity r) fun _ => trivial
      rcases inserted with e | user
      · cases e <;> exact trivial
      · exact trivial
  · refine Action.each_andThen (fun _ => trivial) fun user => ?_
    rcases user with _ | user
    · exact trivial
    · dsimp only
      split_ifs
      · exact trivial
      · exact Action.each_andThen ⟨htouch id now, fun _ => trivial⟩ fun _ => trivial

/-- **A known identity**: its account is read. -/
theorem safe_resume_read {id : Uuid} {link : OauthIdentity} {now : Instant} :
    Safe (Assertion.onOk (fun p => readUser env i p.1 p.2) fun _ => .any) (resume id link now).run
      .any := by
  refine Safe.look_andThen (Assertion.onSome fun user => readUser env i link.userId user) ?_
    fun user => ?_
  · intro db _ _
    rcases hrow : db.auth.users.row i link.userId with _ | user
    · trivial
    · show UserLater (some user) (db.auth.users.row i link.userId)
      rw [hrow]
      exact UserLater.refl _
  · rcases user with _ | user
    · exact Safe.ret fun _ _ _ => trivial
    · rcases hcan : (!user.status.canAuthenticate) with _ | _
      · simp only [hcan]
        refine Safe.query_andThen (fun _ => readUser env i link.userId user)
          (keeps_readUser fun i db b db' h => ?_) fun _ => Safe.ret fun _ _ h => h
        obtain ⟨t, -, rfl⟩ := run_touchLogin h
        rfl
      · simp only [hcan]
        exact Safe.ret fun _ _ _ => trivial

/-- **An account that is made** is read as it is made. -/
theorem safe_insertArrival_read {email : Option Text} {displayName : Text}
    {accountType : AccountType} {x : Provider × Text} :
    Safe (Assertion.onOk (fun p => readUser env i p.1 p.2) fun _ => .any)
      (insertArrival email displayName accountType x).run .any := by
  have hinsert : Safe (Assertion.onOk (fun p => readUser env i p.1 p.2) fun _ => .any)
      (insertUser email displayName accountType (some x)).run .any := by
    refine Safe.query_andThen
      (Assertion.onOk (fun u => readUser env i u
        { email := email, displayName := displayName, accountType := accountType
          firstIdentity := some x }) fun _ => .any) ?_ fun inserted => ?_
    · intro db b db' hs _ _ hrun
      have hs : db.auth.users.Ordered UserLater := hs
      rw [accounts_run] at hrun
      obtain ⟨hs', hg⟩ := settles_of_run hs hrun
      refine ⟨hs', hg, ?_⟩
      rcases run_insertUser hrun with ⟨⟨e, rfl⟩, rfl⟩ | ⟨rfl, rfl⟩
      · trivial
      · intro user huser
        cases huser
        exact ⟨_, Table.draft_put.row, fun _ => rfl⟩
    · rcases inserted with e | u
      · exact Safe.ret fun _ _ h => h
      · exact Safe.ret fun _ _ h => h
  refine Safe.bind hinsert fun inserted => ?_
  rcases inserted with e | user
  · cases e <;> exact Safe.ret fun _ _ _ => trivial
  · exact Safe.ret fun _ _ h => h

/-- **The account of an identity is read**, as it is found or made. -/
theorem safe_resolve_read {provider : Provider} {identity : VerifiedIdentity}
    {intended : Option AccountType} {clientEmail clientDisplayName : Option Text} {now : Instant} :
    Safe (Assertion.onOk (fun p => readUser env i p.1 p.2) fun _ => .any)
      (resolve provider identity intended clientEmail clientDisplayName now).run .any := by
  refine Safe.look_keep fun existing => ?_
  rcases existing with _ | ⟨id, link⟩
  · show Safe _ (arrive provider identity intended clientEmail clientDisplayName now).run _
    unfold arrive
    rcases intended with _ | accountType
    · exact Safe.ret fun _ _ _ => trivial
    · refine Safe.andThen _ safe_insertArrival_read fun p => ?_
      refine Safe.keep_andThen ?_ (fun _ _ _ _ => trivial) fun _ => Safe.ret fun _ _ h => h
      refine each_insertIdentity fun r _ _ _ => keeps_readUser fun i db b db' h => ?_
      rcases run_insertIdentity h with ⟨-, rfl⟩ | ⟨k, t, -, -, rfl⟩ <;> rfl
  · exact safe_resume_read

/-! ### The address that is marked -/

/-- **What is marked has been read**, and vouched for. -/
theorem truthful_markVouched {provider : Provider} {token : Text} {intended : Option AccountType}
    {clientEmail clientDisplayName : Option Text} {claims : FirebaseClaims} {subject : Text}
    {userId : Uuid} {user : User} {now : Instant} {done : Prop}
    (hclaims : v.decode i token = .ok claims) (hclean : ¬ claims.Recovers) :
    Truthful Query.marks
      (MarksClaimed v i (.signInWithProvider provider token intended clientEmail clientDisplayName))
      (fun _ => Assertion.onOk (fun _ => .any) fun _ => .any) done
      (markVouched (identityOf subject claims) userId user now).run (readUser env i userId user) := by
  rw [markVouched]
  split
  next hvouches =>
    refine Truthful.read (fun _ => readUser env i userId user) (fun _ _ h => h) fun hit => ?_
    cases hit with
    | false => exact Truthful.ret fun _ _ _ => trivial
    | true =>
      refine Truthful.query (fun _ => .any) (fun db b db' hs h _ hrun => ?_) fun _ =>
        Truthful.ret fun _ _ _ => trivial
      have hs : db.auth.users.Ordered UserLater := hs
      have h : UserLater (some user) (db.auth.users.row i userId) := h
      rw [accounts_run] at hrun
      obtain ⟨hs', hg⟩ := settles_of_run hs hrun
      refine ⟨hs', hg, trivial, fun _ claims' hclaims' _ k u hu hchanged => ?_⟩
      obtain rfl : claims = claims' := Except.ok.inj (hclaims.symm.trans hclaims')
      obtain ⟨auth, hq, rfl⟩ := run_service hrun
      obtain ⟨t, ht, rfl⟩ := Marketplace.Query.run_users hq
      have ht : db.auth.users.modify .tx i userId (Table.updating fun w : User =>
          if w.emailVerifiedAt = none then
            some ((), { w with emailVerifiedAt := some now, provedBy := some i })
          else none) = some (b, t) := ht
      have hchanged : t.row i k ≠ some u := hchanged
      rcases eq_or_ne k userId with rfl | hne
      · -- the row that is marked is not verified, and so is the one that was read
        obtain ⟨-, -, ⟨-, rfl⟩ | ⟨w', hw', -⟩⟩ := Table.modify_cases ht
        · exact absurd hu hchanged
        · obtain ⟨w, _, hw, hact⟩ := Table.updating_cases hw'
          obtain rfl : w = u := Option.some.inj (hw.symm.trans hu)
          obtain ⟨read, hread, hsame⟩ := h user rfl
          obtain rfl : w = read := Option.some.inj (hw.symm.trans hread)
          have hnone : w.emailVerifiedAt = none := by
            by_contra hsome
            rw [if_neg hsome] at hact
            cases hact
          rw [hsame hnone]
          exact (vouchesFor_claims_iff subject).mpr hclean user hvouches
      · rw [Table.row, Table.slot_modify_of_ne ht hne] at hchanged
        exact absurd hu hchanged
  next => exact Truthful.ret fun _ _ _ => trivial

/-- What a sign-in does in its transaction. -/
theorem truthful_signing {token : Text} {claims : FirebaseClaims} (provider : Provider)
    (subject : Text) (intended : Option AccountType) (clientEmail clientDisplayName : Option Text)
    (begun now : Instant) (hclaims : v.decode i token = .ok claims) (hclean : ¬ claims.Recovers) :
    Truthful Query.marks
      (MarksClaimed v i (.signInWithProvider provider token intended clientEmail clientDisplayName))
      (fun _ _ => (.any : Assertion (accountsContract (env.verifying v)) i)) False
      (do
        let p ← resolve provider (identityOf subject claims) intended clientEmail
          clientDisplayName begun
        markVouched (identityOf subject claims) p.1 p.2 begun
        let session ← ofService (issueSession (env.verifying v).toEnv i p.1 begun now none)
        pure (.service (.signedIn p.1 session)) : Acting Response).run .any := by
  refine Truthful.andThen
    (fun _ (p : Uuid × User) => readUser (env.verifying v) i p.1 p.2) ?_ fun done p => ?_
  · exact Truthful.of_safe_quiet safe_resolve_read
      (each_resolve (fun _ => id) (fun _ => id) fun _ _ => id)
  · refine Truthful.andThen (fun _ _ => .any) (truthful_markVouched hclaims hclean)
      fun done _ => ?_
    have hsound : Safe (fun _ => (.any : Assertion (accountsContract (env.verifying v)) i))
        (do let session ← ofService (issueSession (env.verifying v).toEnv i p.1 begun now none)
            pure (.service (.signedIn p.1 session)) : Acting Response).run .any :=
      Safe.of_sound (Prog.each_of_forall fun _ => accountsContract_sound)
    refine Truthful.of_safe_quiet hsound (Action.each_andThen ?_ fun _ => trivial)
    exact Prog.each_embed (each_issueSession fun _ _ _ _ => id)

/-- A transaction marks what its body does. -/
theorem truthful_inTransaction {r : Request} {body : Acting Response}
    (hb : Truthful Query.marks (MarksClaimed v i r)
      (fun _ _ => (.any : Assertion (accountsContract env) i)) False body.run .any) :
    Truthful Query.marks (MarksClaimed v i r)
      (fun _ _ => (.any : Assertion (accountsContract env) i)) False
      (Action.transaction (.service .commit) (.service .rollback) body).run .any := by
  have hend : ∀ {q : Query Unit} {a : Except AppError Response} {done : Prop}, ¬ q.marks →
      Truthful Query.marks (MarksClaimed v i r)
        (fun _ _ => (.any : Assertion (accountsContract env) i)) done (.query q fun _ => .ret a)
        .any := by
    intro q a done hq
    refine Truthful.query (fun _ => .any) (fun db b db' hs _ hC hrun => ?_) fun _ =>
      Truthful.ret fun _ _ _ => trivial
    obtain ⟨hs', hg⟩ := accountsContract_sound i db b db' hs hC hrun
    exact ⟨hs', hg, trivial, fun hmarks => absurd hmarks hq⟩
  refine Truthful.bind hb fun done a => ?_
  cases a with
  | ok response => exact hend (q := .service .commit) fun h => h
  | error e => exact hend (q := .service .rollback) fun h => h

/-- **A sign-in marks what its token claims**, unless the token recovers an address. -/
theorem truthful_signInWithProvider {provider : Provider} {token : Text}
    {intended : Option AccountType} {clientEmail clientDisplayName : Option Text} :
    Truthful Query.marks
      (MarksClaimed v i (.signInWithProvider provider token intended clientEmail clientDisplayName))
      (fun _ _ => (.any : Assertion (accountsContract (env.verifying v)) i)) False
      (signInWithProvider (env.verifying v) i provider token intended clientEmail
        clientDisplayName).run .any := by
  by_cases hclean : ∃ claims, v.decode i token = .ok claims ∧ ¬ claims.Recovers
  · obtain ⟨claims, hclaims, hclean⟩ := hclean
    unfold signInWithProvider verified
    refine Truthful.read (fun _ => .any) (fun _ _ _ => trivial) fun now => ?_
    rcases htoken : (env.verifying v).verifyToken i token provider with e | identity
    · exact Truthful.ret fun _ _ _ => trivial
    obtain ⟨subject, rfl⟩ := verify_eq hclaims htoken
    refine Truthful.read (fun _ => .any) (fun _ _ _ => trivial) fun begun => ?_
    have hbody := @truthful_signing env v i token claims provider subject intended clientEmail
      clientDisplayName begun now hclaims hclean
    exact truthful_inTransaction hbody
  · -- there is nothing to be shown of a token that is refused, or that recovers an address
    refine Truthful.of_safe_any (Safe.of_sound (Prog.each_of_forall fun _ => accountsContract_sound))
      fun db db' claims hclaims hrecovers => ?_
    exact absurd ⟨claims, hclaims, hrecovers⟩ hclean

/-- **Every request marks what its token claims**, unless the token recovers an address. -/
theorem truthful_serve (r : Request) :
    Truthful Query.marks (MarksClaimed v i r)
      (fun _ _ => (.any : Assertion (accountsContract (env.verifying v)) i)) False
      (serve (env.verifying v) i r).run .any := by
  have hsound : ∀ p : Acting Response, Safe
      (fun _ => (.any : Assertion (accountsContract (env.verifying v)) i)) p.run .any :=
    fun p => Safe.of_sound (Prog.each_of_forall fun _ => accountsContract_sound)
  cases r with
  | service request => exact Truthful.of_safe_any (hsound _) fun _ _ => trivial
  | authenticate rawToken => exact Truthful.of_safe_any (hsound _) fun _ _ => trivial
  | register email displayName password accountType =>
    exact Truthful.of_safe_any (hsound _) fun _ _ => trivial
  | linkProvider userId provider idToken =>
    exact Truthful.of_safe_any (hsound _) fun _ _ => trivial
  | signInWithProvider provider token intended clientEmail clientDisplayName =>
    exact truthful_signInWithProvider

/-! ### Whole runs -/

/-- **What is newly verified has been marked.** -/
theorem marks_of_verified {q : Query β} {k : Uuid} {user user' : User}
    (hs : db.auth.users.Ordered UserLater) (h : q.run env.toEnv i db = some (b, db'))
    (hrow : db.auth.users.row i k = some user) (hnone : user.emailVerifiedAt = none)
    (hrow' : db'.auth.users.row i k = some user') (hsome : user'.emailVerifiedAt ≠ none) :
    q.marks := by
  by_contra hq
  have heff := effect_of_not_marks hq h
  generalize db'.auth.users = t at heff hrow'
  cases heff with
  | keep =>
    cases hrow.symm.trans hrow'
    exact hsome hnone
  | @put k₀ r m hfree hA =>
    rcases eq_or_ne k k₀ with rfl | hne
    · exact absurd (hA.symm.trans hrow) nofun
    · rw [Table.row_put_of_ne hne] at hrow'
      cases hrow.symm.trans hrow'
      exact hsome hnone
  | commit =>
    rw [Table.row_commit] at hrow'
    cases hrow.symm.trans hrow'
    exact hsome hnone
  | rollback =>
    -- what is left is what was published, which has been verified since if it was at all
    rw [Table.row_rollback] at hrow'
    obtain ⟨later, hlater, hsame⟩ := (hs k).visible UserLater.refl user' hrow'
    cases hrow.symm.trans hlater
    rw [hsame hnone] at hnone
    exact hsome hnone

section Runs

variable {db₀ : Db} {c d : Config ℕ Db Request (Except AppError Response) Query}

/-- Accounts stay as they are until they are verified, in every store that is reached. -/
theorem ordered_of_reachable (h₀ : ∀ k, (db₀.auth.users.slot k).lock = none)
    (hc : Reachable (accounts (env.verifying v)) anyQuery (.initial db₀) c) :
    c.db.auth.users.Ordered UserLater :=
  ((accountsContract (env.verifying v)).of_reachable
    (fun i r => (truthful_serve (v := v) (i := i) r).safe)
    (Table.ordered_of_unlocked h₀) (fun _ => trivial) hc).1

/-- **A sign-in verifies the address that the token claims.** What a token that is accepted
vouches for is an address that it claims, exactly if it recovers none; and in whatever run, an
account that a sign-in verifies, with a token that recovers none, has the address that the token
claims. -/
theorem verified_claimed_iff :
    (∀ i token provider claims identity, v.decode i token = .ok claims →
      v.verify i token provider = .ok identity →
      ((∀ user, vouchesFor identity user = true → claims.Claims user) ↔ ¬ claims.Recovers)) ∧
    ∀ (env : Surroundings) db₀ c d i provider token intended clientEmail clientDisplayName p claims
      k user user',
      (∀ k, (db₀.auth.users.slot k).lock = none) →
      Reachable (accounts (env.verifying v)) anyQuery (.initial db₀) c →
      StepOf (accounts (env.verifying v)) anyQuery i c d →
      c.procs i = .running
        (.signInWithProvider provider token intended clientEmail clientDisplayName) p →
      v.decode i token = .ok claims → ¬ claims.Recovers →
      c.db.auth.users.row i k = some user → user.emailVerifiedAt = none →
      d.db.auth.users.row i k = some user' → user'.emailVerifiedAt ≠ none →
      claims.Claims user := by
  refine ⟨fun i token provider claims identity hclaims hverify => ?_,
    fun env db₀ c d i provider token intended clientEmail clientDisplayName p claims k user user'
      h₀ hc hstep hi hclaims hclean hrow hnone hrow' hsome => ?_⟩
  · obtain ⟨subject, rfl⟩ := verify_eq hclaims hverify
    exact vouchesFor_claims_iff subject
  · have hs := ordered_of_reachable h₀ hc
    cases hstep with
    | read hi' =>
      cases hrow.symm.trans hrow'
      exact absurd hnone hsome
    | @query r δ q k' b db' hi' hC hq =>
      obtain ⟨rfl, -⟩ := Proc.running.inj (hi.symm.trans hi')
      have hmarks : q.marks := marks_of_verified hs hq hrow hnone hrow' hsome
      have hpub := (accountsContract (env.verifying v)).published
        (fun i r => truthful_serve (v := v) (i := i) r) (Table.ordered_of_unlocked h₀)
        (fun _ => trivial) hc (.query hi' hmarks hC hq)
      refine hpub.1 claims hclaims hclean k user hrow fun hsame => ?_
      cases hsame.symm.trans hrow'
      exact hsome hnone
    | @crash _ _ db' hi' hC hq =>
      have hq : Query.run env.toEnv (.service .rollback) i c.db = some ((), db') := hq
      exact (marks_of_verified hs hq hrow hnone hrow' hsome).elim

/-- What a token of Google says of somebody who claims an address, or does not. -/
def googleClaims (email : Option Text) : FirebaseClaims where
  sub := "uid".toList
  email := email
  emailVerified := some true
  authTime := 0
  exp := 3600
  iat := 0
  iss := issuer "cm".toList
  aud := "cm".toList
  signInProvider := "google.com".toList
  identities slot :=
    if slot = "google.com".toList then some ["subject".toList]
    else if slot = "email".toList then some ["a@b.c".toList]
    else none

/-- A verifier that every token says the same to. -/
def saying (claims : FirebaseClaims) : Verifier :=
  { projectId := "cm".toList, decode := fun _ _ => .ok claims, now := fun _ => 0 }

/-- The first account is verified by what the first process does. -/
def verifies (c d : Config ℕ Db Request (Except AppError Response) Query) : Bool :=
  match c.procs 1, c.db.auth.users.row 1 0, d.db.auth.users.row 1 0 with
  | .running r _, some user, some user' => decide (r = firstSignIn ∧
      user.email = some "a@b.c".toList ∧ user.emailVerifiedAt = none ∧ user'.emailVerifiedAt ≠ none)
  | _, _, _ => false

/-- A first sign-in, up to where the account is marked. -/
def untilMarked : List (Event ℕ Request) := .arrive 1 firstSignIn :: List.replicate 6 (.run 1)

theorem of_verifies (h : verifies c d = true) : ∃ p user user', c.procs 1 = .running firstSignIn p ∧
    c.db.auth.users.row 1 0 = some user ∧ user.email = some "a@b.c".toList ∧
    user.emailVerifiedAt = none ∧ d.db.auth.users.row 1 0 = some user' ∧
    user'.emailVerifiedAt ≠ none := by
  rw [verifies] at h
  split at h
  · rename_i r p user user' hi hrow hrow'
    obtain ⟨rfl, hemail, hnone, hsome⟩ := of_decide_eq_true h
    exact ⟨p, user, user', hi, hrow, hemail, hnone, hrow', hsome⟩
  · cases h

/-- Somebody signs in for the first time, with a token that claims their address. -/
theorem verified_claimed_iff_firstSignIn : ∃ c d user user',
    Reachable (accounts (vouching.verifying (saying (googleClaims (some "a@b.c".toList)))))
      anyQuery (.initial {}) c ∧
    StepOf (accounts (vouching.verifying (saying (googleClaims (some "a@b.c".toList)))))
      anyQuery 1 c d ∧
    c.db.auth.users.row 1 0 = some user ∧ user.emailVerifiedAt = none ∧
    d.db.auth.users.row 1 0 = some user' ∧ user'.emailVerifiedAt ≠ none ∧
    (googleClaims (some "a@b.c".toList)).Claims user := by
  obtain ⟨c, d, e, hc, hstep, -, hP⟩ := exists_of_exec_stepOf_exec
    (accounts (vouching.verifying (saying (googleClaims (some "a@b.c".toList))))) untilMarked 1 []
    (.initial {}) (fun c d _ => verifies c d) (by decide +kernel)
  obtain ⟨p, user, user', hi, hrow, -, hnone, hrow', hsome⟩ := of_verifies hP
  refine ⟨c, d, user, user', hc, hstep, hrow, hnone, hrow', hsome, ?_⟩
  exact verified_claimed_iff.2 vouching {} c d 1 _ _ _ _ _ p _ 0 user user' (fun _ => rfl) hc
    hstep hi rfl (fun hrecovers => nomatch hrecovers.1) hrow hnone hrow' hsome

/-- **An address that nobody claims is verified**: the token carries it among its identities only,
and its flag is set. -/
theorem recovered_verified : ∃ c d user user' p,
    Reachable (accounts (vouching.verifying (saying (googleClaims none)))) anyQuery (.initial {}) c ∧
    StepOf (accounts (vouching.verifying (saying (googleClaims none)))) anyQuery 1 c d ∧
    c.procs 1 = .running firstSignIn p ∧ (googleClaims none).email = none ∧
    (∃ identity, (saying (googleClaims none)).verify 1 "subject".toList .google = .ok identity ∧
      identity.emailFromIdentities = true) ∧
    c.db.auth.users.row 1 0 = some user ∧ user.email = some "a@b.c".toList ∧
    user.emailVerifiedAt = none ∧ d.db.auth.users.row 1 0 = some user' ∧
    user'.emailVerifiedAt ≠ none ∧ ¬ (googleClaims none).Claims user := by
  obtain ⟨c, d, e, hc, hstep, -, hP⟩ := exists_of_exec_stepOf_exec
    (accounts (vouching.verifying (saying (googleClaims none)))) untilMarked 1 [] (.initial {})
    (fun c d _ => verifies c d) (by decide +kernel)
  obtain ⟨p, user, user', hi, hrow, hemail, hnone, hrow', hsome⟩ := of_verifies hP
  refine ⟨c, d, user, user', p, hc, hstep, hi, rfl, ⟨_, rfl, rfl⟩, hrow, hemail, hnone, hrow', hsome,
    ?_⟩
  rintro ⟨claimed, hclaimed, -⟩
  cases hclaimed

end Runs

end Marketplace.Accounts
