import Marketplace.Auth.Lockout

/-!
# No password is accepted while the account is locked

A login judges the lock twice: when it reads the credential, and again once it holds the
row. It clears the counter in two places, and both have to come after the end of any lock
they clear. What follows for a login that starts while the account is locked is that it
is accepted only once the lock has been lifted (`Marketplace.Lifted`).
-/

namespace Marketplace

open ReadCommitted

variable {env : Env} {i j : ℕ} {db db' : Db} {α β : Type}

/-! ### Assertions -/

/-- The request holds no credential. -/
def free (env : Env) (i : ℕ) : Assertion (lockContract env) i where
  holds db := ∀ u v, (db.credentials.slot u).lock ≠ some (i, v)
  stable := fun hne _ _ hg h u v hu => h u v ((hg.moves u).lock_of_other hu (Ne.symm hne))
  tick := fun _ _ h => h

/-- No lock is set on the account's credential. -/
def Lockless (userId : Uuid) (db : Db) : Prop :=
  ∀ c, (db.credentials.slot userId).committed = some c → c.lockedUntil = none

/-- The instant has come. -/
def past (env : Env) (i : ℕ) (now : Instant) : Assertion (lockContract env) i where
  holds db := now ≤ db.clock
  stable := fun _ _ _ hg h => h.trans hg.clock.ge
  tick := fun n _ h => h.trans (Nat.le_add_right _ n)

/-- The request holds the credential, and no lock is in force on it. -/
def unlocked (env : Env) (i : ℕ) (userId : Uuid) : Assertion (lockContract env) i where
  holds db := ∃ c, (db.credentials.slot userId).lock = some (i, some c) ∧
    ∀ L, c.lockedUntil = some L → L ≤ db.clock
  stable := by
    rintro j db db' hne - - hg ⟨c, hc, hend⟩
    have hsame := (hg.moves userId).eq_of_held hc (Ne.symm hne)
    exact ⟨c, by rw [hsame]; exact hc, fun L hL => (hend L hL).trans hg.clock.ge⟩
  tick := fun n _ ⟨c, hc, hend⟩ => ⟨c, hc, fun L hL => (hend L hL).trans (Nat.le_add_right _ n)⟩

/-- A clearing of failures that leaves the row alone found no lock on it. -/
theorem lockless_of_untouched {userId : Uuid} {why : Clearing} {now : Instant} {c : Credential}
    {q : Passwords.Query (Option Unit)} (hq : q = .clearFailures userId why now)
    (h : (q.act i (some c)).2 = none) : c.lockedUntil = none := by
  subst hq
  by_contra hlock
  rw [Passwords.Query.act, Table.updating, if_pos] at h
  · cases h
  · exact Or.inr (Option.isSome_iff_ne_none.mpr hlock)

/-- A clearing of an elapsed lock, by a request that holds no credential. -/
theorem lock_clearElapsed {userId : Uuid} {now : Instant} {b : Option Unit} (hs : LockInv db)
    (hfree : (free env i).holds db) (hpast : now ≤ db.clock)
    (hC : clearsElapsed i (.credentials .auto (.clearFailures userId .elapsed now)) db)
    (hr : Query.run env (.credentials .auto (.clearFailures userId .elapsed now)) i db =
      some (b, db')) : LockInv db' ∧ LockStep i db db' ∧ (free env i).holds db' ∧
        Lockless userId db' := by
  have hq : (Query.credentials .auto (.clearFailures userId .elapsed now)).Timely i db := hpast
  obtain ⟨hs', hg⟩ := hs.run hq hC hr
  obtain ⟨t, ht, rfl⟩ := Query.run_credentials hr
  refine ⟨hs', hg, fun u v hu => hfree u v (Table.lock_modify_auto ht hu), ?_⟩
  -- the row is free, so what it was judged by is what is published
  have hcom : db.credentials.row i userId = (db.credentials.slot userId).committed :=
    Slot.visible_of_unlocked (Table.unlocked_of_auto ht)
  intro c hc
  obtain ⟨-, -, ⟨hput, rfl⟩ | ⟨r, hput, rfl⟩⟩ := Table.modify_cases ht
  · rw [Passwords.Query.key, hcom, hc] at hput
    exact lockless_of_untouched rfl hput
  · rw [Passwords.Query.key, Table.slot_put_self] at hc
    obtain rfl : r = c := Option.some.inj hc
    obtain ⟨c₁, u, -, hc₁⟩ := Table.updating_cases hput
    split at hc₁ <;> cases hc₁
    rfl

/-- What the statement that holds the row answers, when no lock is in force. -/
theorem lock_findForUpdate {userId : Uuid} {now : Instant} {c : Credential}
    (hpast : now ≤ db.clock)
    (hr : Query.run env (.credentials .tx (.findForUpdate userId)) i db = some (some c, db'))
    (hlock : c.isLockedAt now = false) : (unlocked env i userId).holds db' := by
  have hclock := (Query.effects hr).clock
  obtain ⟨t, ht, rfl⟩ := Query.run_credentials hr
  obtain ⟨-, hans, -⟩ := Table.modify_cases ht
  obtain ⟨c₁, c₂, hrow, hcc, hput⟩ := Table.updating_answer hans.symm
  cases hcc
  refine ⟨c, congrArg Slot.lock (Table.slot_modify ht hput), fun L hL => ?_⟩
  rw [Credential.isLockedAt, hL] at hlock
  have hend : ¬ now < L := of_decide_eq_false hlock
  exact (not_lt.mp hend).trans hpast

section Login

variable {now : Instant} {K : Assertion (lockContract env) i}
  {K' : Uuid → Assertion (lockContract env) i}

/-! ### The login -/

/-- The account that an answer signs in, or is about to. -/
def Response.signsIn : Response → Option Uuid
  | .signedIn userId _ => some userId
  | .challenged _ userId => some userId
  | .remembered userId _ _ => some userId
  | _ => none

/-- What is known of the account whose password was accepted. -/
def accepted (K' : Uuid → Assertion (lockContract env) i) (r : Response) :
    Assertion (lockContract env) i :=
  match r.signsIn with
  | some userId => K' userId
  | none => .any

theorem lasting_accepted (hK' : ∀ u, (K' u).Lasting) (r : Response) : (accepted K' r).Lasting := by
  intro db db' hs hs' hg h
  unfold accepted at h ⊢
  rcases hr : r.signsIn with _ | u
  · trivial
  · simp only [hr] at h ⊢
    exact hK' u db db' hs hs' hg h

/-- What the first phase of a login knows. -/
def admitted (K' : Uuid → Assertion (lockContract env) i) :
    Precheck → Assertion (lockContract env) i
  | .proceed userId _ _ => (free env i).and (K' userId)
  | _ => .any

/-- What is known once the credential has been read. -/
def readUnlocked (K : Assertion (lockContract env) i) (K' : Uuid → Assertion (lockContract env) i)
    (userId : Uuid) : Option Credential → Assertion (lockContract env) i
  | some c => (free env i).and (if c.lockedUntil.isSome = true then K else K' userId)
  | none => .any

theorem lock_loginPrecheck {email : Text} (hK : K.Lasting)
    (hseen : ∀ db u, LockInv db → K.holds db → Lockless u db → (K' u).holds db) :
    Safe (Assertion.onOk (admitted K') fun _ => .any) (loginPrecheck env email now).run
      ((free env i).and K) := by
  refine Safe.keep_andThen (fun _ => trivial) (fun _ _ _ _ => trivial) fun found => ?_
  rcases found with _ | ⟨userId, user⟩
  · exact Safe.ret fun _ _ _ => trivial
  · dsimp only
    split_ifs
    · exact Safe.ret fun _ _ _ => trivial
    · refine Safe.look_andThen (readUnlocked K K' userId) ?_ fun credential => ?_
      · intro db hs h
        have hcom : db.credentials.row i userId = (db.credentials.slot userId).committed :=
          (Slot.visible_cases i _).resolve_left (h.1 userId _)
        rcases hc : db.credentials.row i userId with _ | c
        · trivial
        · refine ⟨h.1, ?_⟩
          split
          · exact h.2
          · rename_i hnot
            refine hseen db userId hs h.2 fun c' hc' => ?_
            obtain rfl : c = c' := Option.some.inj (hc.symm.trans (hcom.trans hc'))
            exact Option.not_isSome_iff_eq_none.mp hnot
      · rcases credential with _ | c
        · exact Safe.ret fun _ _ _ => trivial
        · dsimp only [readUnlocked]
          by_cases hlocked : c.isLockedAt now = true
          · rw [if_pos hlocked]
            exact Safe.ret fun _ _ _ => trivial
          rw [if_neg hlocked]
          by_cases hset : c.lockedUntil.isSome = true
          · -- the clearing is judged by an instant that has come when it runs
            simp only [if_pos hset]
            refine Safe.andThen (fun _ => (free env i).and (K' userId)) ?_
              fun _ => Safe.ret fun _ _ h => h
            refine Safe.look_andThen (fun t => ((free env i).and K).and (past env i t))
              (fun db _ h => ⟨h, le_rfl⟩) fun t => ?_
            refine Safe.andThen (fun _ => (free env i).and (K' userId))
              (safe_onCredential_of_miss _ ?_ ?_) fun _ => Safe.ret fun _ _ h => h
            · intro db hs h hmiss
              refine ⟨h.1.1, hseen db userId hs h.1.2 fun c hc => ?_⟩
              have hcom : db.credentials.row i userId = _ :=
                (Slot.visible_cases i _).resolve_left (h.1.1 userId _)
              rw [Passwords.Query.key, hcom, hc] at hmiss
              exact lockless_of_untouched rfl hmiss
            · intro db b db' hs h hC hr
              obtain ⟨hs', hg, hfree, hless⟩ := lock_clearElapsed hs h.1.1 h.2 hC hr
              exact ⟨hs', hg, hfree, hseen db' userId hs' (hK db db' hs hs' hg h.1.2) hless⟩
          · simp only [if_neg hset]
            exact Safe.ret fun _ _ h => h

/-- What is known once the row is held. -/
def heldUnlocked (K' : Uuid → Assertion (lockContract env) i) (now : Instant) (userId : Uuid) :
    Option Credential → Assertion (lockContract env) i
  | some c => if c.isLockedAt now = true then .any else (K' userId).and (unlocked env i userId)
  | none => .any

theorem lock_revalidate {userId : Uuid} {verifiedHash : Text} (hK' : ∀ u, (K' u).Lasting) :
    Safe (Assertion.onOk (fun _ => (K' userId).and (unlocked env i userId)) fun _ => .any)
      (revalidate userId verifiedHash now).run ((K' userId).and (past env i now)) := by
  refine Safe.andThen (heldUnlocked K' now userId)
    (safe_onCredential _ (fun _ _ _ => trivial) ?_) fun current => ?_
  · intro db b db' hs h hC hr
    have hq : (Query.credentials .tx (.findForUpdate userId)).clears = false := rfl
    obtain ⟨hs', hg⟩ := lock_sound hq i db b db' hs hC hr
    refine ⟨hs', hg, ?_⟩
    rcases b with _ | c
    · trivial
    · rw [heldUnlocked]
      split
      · trivial
      · rename_i hnot
        rw [Bool.not_eq_true] at hnot
        exact ⟨hK' userId db db' hs hs' hg h.1, lock_findForUpdate h.2 hr hnot⟩
  · refine Safe.keep_andThen (fun _ => trivial) (fun _ _ _ _ => trivial) fun user => ?_
    rcases current with _ | current <;> rcases user with _ | user
    · exact Safe.ret fun _ _ _ => trivial
    · exact Safe.ret fun _ _ _ => trivial
    · exact Safe.ret fun _ _ _ => trivial
    · dsimp only [heldUnlocked]
      split_ifs
      all_goals first | exact Safe.ret fun _ _ _ => trivial | exact Safe.ret fun _ _ h => h

/-- The clearing that follows a verification, by a request that holds the row. -/
theorem lock_clearVerified {userId : Uuid} {t : Instant} {b : Option Unit} (hs : LockInv db)
    (h : (unlocked env i userId).holds db)
    (hr : Query.run env (.credentials .tx (.clearFailures userId .verified t)) i db =
      some (b, db')) : LockInv db' ∧ LockStep i db db' := by
  have hq : (Query.credentials .tx (.clearFailures userId .verified t)).Timely i db := by
    obtain ⟨c, hc, hend⟩ := h
    intro c' L hrow hL
    have hsame : db.credentials.row i userId = some c := Slot.visible_of_held hc
    rw [Passwords.Query.key, hsame] at hrow
    obtain rfl := Option.some.inj hrow
    exact hend L hL
  exact hs.run hq trivial hr

theorem issues_lock (hK' : ∀ u, (K' u).Lasting) {userId u : Uuid} {purpose : Purpose}
    {authorisedBy : Option ℕ} : Issues (fun q => (lockContract env).Keeps (K' u) q) i userId purpose
      authorisedBy :=
  ⟨fun _ _ => (lock_sound rfl).keeps (hK' u), fun _ _ => (lock_sound rfl).keeps (hK' u),
    fun _ => (lock_sound rfl).keeps (hK' u)⟩

theorem lock_completeLogin {userId : Uuid} {verifiedHash : Text} {g : ℕ} {remembered : Bool}
    (hK' : ∀ u, (K' u).Lasting) :
    Safe (Assertion.onOk (accepted K') fun _ => .any)
      (completeLogin env i userId verifiedHash g remembered now).run
      ((free env i).and (K' userId)) := by
  have hkeep : ∀ {β : Type} {q : Query β}, q.clears = false →
      (lockContract env).Keeps (K' userId) q := fun hq => (lock_sound hq).keeps (hK' userId)
  refine Safe.keep_andThen (fun _ => trivial) (fun _ _ _ _ => trivial) fun begun => ?_
  refine Safe.transaction (Assertion.onOk (accepted K') fun _ => .any) ?_ ?_ ?_
  · refine Safe.look_andThen (fun t => (K' userId).and (past env i t))
      (fun db _ h => ⟨h.2, le_rfl⟩) fun current => ?_
    refine Safe.andThen _ (lock_revalidate hK') fun user => ?_
    refine Safe.andThen (fun _ => K' userId) (safe_onCredential _ (fun _ _ h => h.1) ?_)
      fun _ => ?_
    · intro db b db' hs h _ hr
      obtain ⟨hs', hg⟩ := lock_clearVerified hs h.2 hr
      exact ⟨hs', hg, hK' userId db db' hs hs' hg h.1⟩
    · cases remembered
      · rcases user.email with _ | address
        · exact Safe.ret fun _ _ _ => trivial
        · refine Safe.keep_andThen (each_issueChallenge (issues_lock hK'))
            (fun _ _ _ _ => trivial) fun challenge => ?_
          exact Safe.ret fun _ _ h => h
      · refine Safe.keep_andThen (each_issueSession fun _ _ _ _ => hkeep rfl)
          (fun _ _ _ _ => trivial) fun session => ?_
        exact Safe.ret fun _ _ h => h
  · intro r db u db' hs h hC hr
    have hq : Query.commit.clears = false := rfl
    obtain ⟨hs', hg⟩ := lock_sound hq i db u db' hs hC hr
    exact ⟨hs', hg, lasting_accepted hK' r db db' hs hs' hg h⟩
  · intro e db u db' hs _ hC hr
    have hq : Query.rollback.clears = false := rfl
    obtain ⟨hs', hg⟩ := lock_sound hq i db u db' hs hC hr
    exact ⟨hs', hg, trivial⟩

/-- **A login that has begun**: what is known of the account holds of every account whose
password it accepts. -/
theorem lock_loginAt {email password : Text} {device : Option DeviceCookie} (hK : K.Lasting)
    (hK' : ∀ u, (K' u).Lasting)
    (hseen : ∀ db u, LockInv db → K.holds db → Lockless u db → (K' u).holds db) :
    Safe (Assertion.onOk (accepted K') fun _ => .any)
      (loginAt env i email password device now).run ((free env i).and K) := by
  refine Safe.andThen (admitted K') (lock_loginPrecheck hK hseen) fun precheck => ?_
  cases precheck with
  | proceed userId verifiedHash generation =>
    dsimp only
    split
    · -- a refusal is an error, whatever the count was
      refine Safe.keep_andThen (fun _ => trivial) (fun _ _ _ _ => trivial) fun t => ?_
      refine Safe.andThen (fun _ => .any) (safe_onCredential _ (fun _ _ _ => trivial) ?_)
        fun after => ?_
      · intro db b db' hs _ hC hr
        have hq : (Query.credentials .auto (.recordFailure userId t)).clears = false := rfl
        obtain ⟨hs', hg⟩ := lock_sound hq i db b db' hs hC hr
        exact ⟨hs', hg, trivial⟩
      · cases after <;> exact Safe.ret fun _ _ _ => trivial
    · refine Safe.andThen _ (lock_completeLogin hK') fun response => ?_
      refine Safe.keep_andThen (each_upgradeHashIfNeeded
        ((lock_sound rfl).keeps (lasting_accepted hK' response))) (fun _ _ _ _ => trivial)
        fun _ => Safe.ret fun _ _ h => h
  | noAccount => exact Safe.ret fun _ _ _ => trivial
  | inactive userId => exact Safe.ret fun _ _ _ => trivial
  | noPassword userId => exact Safe.ret fun _ _ _ => trivial
  | locked userId => exact Safe.ret fun _ _ _ => trivial

end Login

/-! ### All requests -/

/-- Every request is safe. -/
theorem lock_serve (i : ℕ) (r : Request) :
    Safe (fun _ => .any) ((authService env).program i r) (free env i) := by
  have hsound : ∀ {p : Serving Response}, (p.run.Each fun q => (lockContract env).Sound q) →
      Safe (fun _ => .any) p.run (free env i) :=
    fun hp => (Safe.of_sound hp).mono fun _ _ _ => trivial
  have hissue : ∀ {userId purpose authorisedBy},
      Issues (fun q => (lockContract env).Sound q) i userId purpose authorisedBy :=
    ⟨fun _ _ => lock_sound rfl, fun _ _ => lock_sound rfl, fun _ => lock_sound rfl⟩
  cases r with
  | login email password device =>
    refine Safe.keep_andThen (fun _ => trivial) (fun _ _ _ _ => trivial) fun now => ?_
    have h : Safe (Assertion.onOk (accepted fun _ => .any) fun _ => .any)
        (loginAt env i email password device now).run ((free env i).and .any) :=
      lock_loginAt (fun _ _ _ _ _ _ => trivial) (fun _ _ _ _ _ _ _ => trivial)
        fun _ _ _ _ _ => trivial
    exact (h.mono fun _ _ h => ⟨h, trivial⟩).any_post
  | verifyLoginCode challengeId code =>
    exact hsound (each_verifyLoginCode (lock_sound rfl) (lock_sound rfl)
      (fun _ => lock_sound rfl) (fun _ _ => lock_sound rfl) fun _ _ => lock_sound rfl)
  | changePassword userId sessionId current new =>
    exact hsound (each_changePassword (lock_sound rfl) (lock_sound rfl) (lock_sound rfl)
      (fun _ => lock_sound rfl) (fun _ _ => lock_sound rfl) (fun _ => lock_sound rfl)
      fun _ _ => lock_sound rfl)
  | confirmPasswordReset token new =>
    exact hsound (each_confirmPasswordReset (lock_sound rfl) (lock_sound rfl)
      (fun _ _ => lock_sound rfl) (fun _ => lock_sound rfl) (fun _ _ _ => lock_sound rfl)
      fun _ _ => lock_sound rfl)
  | resendLoginCode challengeId =>
    exact hsound (each_resendLoginCode (lock_sound rfl) (lock_sound rfl) fun _ _ => hissue)
  | requestPasswordReset email =>
    exact hsound (each_requestPasswordReset (lock_sound rfl) (lock_sound rfl) fun _ => hissue)
  | requestEmailVerification userId newEmail =>
    exact hsound (each_requestEmailVerification (lock_sound rfl) (lock_sound rfl) hissue)
  | confirmEmail userId challengeId code email =>
    exact hsound (each_confirmEmail (lock_sound rfl) (lock_sound rfl) (fun _ => lock_sound rfl)
      (fun _ => lock_sound rfl) fun _ => lock_sound rfl)
  | logout sessionId =>
    exact hsound (each_logout (lock_sound rfl) (lock_sound rfl) fun _ => lock_sound rfl)
  | logoutAll userId =>
    exact hsound (each_logoutAll (lock_sound rfl) (lock_sound rfl) fun _ _ => lock_sound rfl)

/-! ### A login that starts while the account is locked -/

/-- **The lock has been lifted** since, by the events that are new. -/
def Lifted (userId : Uuid) (cred : Credential) (L : Instant) (db : Db) : Prop :=
  ∃ c newer, (db.credentials.slot userId).committed = some c ∧ c.trail = newer ++ cred.trail ∧
    LiftedBy db.clock L newer

theorem Lifted.grown {userId : Uuid} {cred : Credential} {L : Instant}
    (h : Lifted userId cred L db) (hg : LockStep i db db') : Lifted userId cred L db' := by
  obtain ⟨c, newer, hc, htrail, hlift⟩ := h
  obtain ⟨c', newer', hc', htrail', -⟩ := hg.grown userId c hc
  refine ⟨c', newer' ++ newer, hc', by rw [htrail', htrail, List.append_assoc], ?_⟩
  exact (hlift.mono hg.clock.ge).append

/-- The published credential is a later version of this one. -/
def since (env : Env) (i : ℕ) (userId : Uuid) (cred : Credential) :
    Assertion (lockContract env) i where
  holds db := LockLe db.clock (some cred) (db.credentials.slot userId).committed
  stable := by
    rintro j db db' - - - hg h
    exact (h.mono hg.clock.ge).trans (hg.grown userId)
  tick := fun n _ h => h.mono (Nat.le_add_right _ n)

/-- If it is the account, its lock has been lifted. -/
def lifted (env : Env) (i : ℕ) (userId : Uuid) (cred : Credential) (L : Instant) (u : Uuid) :
    Assertion (lockContract env) i where
  holds db := u = userId → Lifted userId cred L db
  stable := fun _ _ _ hg h hu => (h hu).grown hg
  tick := fun n _ h hu => by
    obtain ⟨c, newer, hc, htrail, hlift⟩ := h hu
    exact ⟨c, newer, hc, htrail, hlift.mono (Nat.le_add_right _ n)⟩

/-- **A lock that is gone has been lifted.** -/
theorem lifted_of_since {userId u : Uuid} {cred : Credential} {L : Instant}
    (hL : cred.lockedUntil = some L) (h : (since env i userId cred).holds db)
    (hless : Lockless u db) : (lifted env i userId cred L u).holds db := by
  rintro rfl
  obtain ⟨c, newer, hc, htrail, hlock⟩ := h cred rfl
  refine ⟨c, newer, hc, htrail, (hlock L hL).resolve_right ?_⟩
  rintro ⟨L', hL', -⟩
  rw [hless c hc] at hL'
  cases hL'

/-- A login of a process that knows what the credential was. -/
theorem lock_login_since {email password : Text} {device : Option DeviceCookie} {userId : Uuid}
    {cred : Credential} {L : Instant} (hL : cred.lockedUntil = some L) :
    Safe (Assertion.onOk (accepted (lifted env i userId cred L)) fun _ => .any)
      (login env i email password device).run ((free env i).and (since env i userId cred)) := by
  refine Safe.keep_andThen (fun _ => trivial) (fun _ _ _ _ => trivial) fun now => ?_
  refine lock_loginAt ?_ ?_ fun db u _ h hless => lifted_of_since hL h hless
  · intro db db' _ _ hg h
    exact (h.mono hg.clock.ge).trans (hg.grown userId)
  · intro u db db' _ _ hg h hu
    exact (h hu).grown hg

/-- What an answer says of the account. -/
def answered (env : Env) (i : ℕ) (userId : Uuid) (cred : Credential) (L : Instant) :
    Request → Except AppError Response → Assertion (lockContract env) i
  | .login _ _ _ => Assertion.onOk (accepted (lifted env i userId cred L)) fun _ => .any
  | _ => fun _ => .any

theorem lock_serve_since {userId : Uuid} {cred : Credential} {L : Instant}
    (hL : cred.lockedUntil = some L) (r : Request) :
    Safe (answered env i userId cred L r) ((authService env).program i r)
      ((free env i).and (since env i userId cred)) := by
  cases r with
  | login email password device => exact lock_login_since hL
  | _ => exact (lock_serve i _).mono fun _ _ h => h.1

/-! ### The result -/

/-- Nobody is at work on a credential, and the counters are those of the histories. -/
structure Counted (db : Db) : Prop where
  /-- Nothing is held. -/
  unlocked : ∀ u, (db.credentials.slot u).lock = none
  /-- Counters and locks are those of the history. -/
  tallied : ∀ u c, (db.credentials.slot u).committed = some c → c.Tallied

theorem Counted.lockInv (h : Counted db) : LockInv db := by
  constructor
  · intro u c hc
    rcases hc with hc | ⟨j, hj⟩
    · exact h.tallied u c hc
    · rw [h.unlocked u] at hj
      cases hj
  · intro u j v hj
    rw [h.unlocked u] at hj
    cases hj

theorem Counted.free (h : Counted db) (i : ℕ) : (free env i).holds db := by
  intro u v hu
  rw [h.unlocked u] at hu
  cases hu

/-- **A login that starts while the account is locked** is accepted only once the lock has
been lifted. -/
theorem lifted_of_accepted {c d : Config ℕ Db Request (Except AppError Response) Query}
    (hs : LockInv c.db) (ht : (lockContract env).Tracked (fun i => free env i)
      (fun _ _ _ => .any) c) {userId : Uuid} {cred : Credential} {L : Instant}
    (hcred : (c.db.credentials.slot userId).committed = some cred)
    (hL : cred.lockedUntil = some L) {i : ℕ} (hi : c.procs i = .idle)
    (hd : Reachable (authService env) clearsElapsed c d) {email password : Text}
    {device : Option DeviceCookie} {response : Response}
    (hserved : d.Served i (.login email password device) (.ok response))
    (haccepted : response.signsIn = some userId) : Lifted userId cred L d.db := by
  -- from here on, process `i` knows which credential it came after
  let pre (j : ℕ) : Assertion (lockContract env) j :=
    if j = i then (free env j).and (since env j userId cred) else free env j
  let post (j : ℕ) (r : Request) : Except AppError Response → Assertion (lockContract env) j :=
    if j = i then answered env j userId cred L r else fun _ => .any
  have hprog : ∀ j r, Safe (post j r) ((authService env).program j r) (pre j) := by
    intro j r
    by_cases hj : j = i
    · simp only [pre, post, if_pos hj]
      exact lock_serve_since hL r
    · simp only [pre, post, if_neg hj]
      exact lock_serve j r
  have ht' : (lockContract env).Tracked pre post c := by
    refine ⟨fun j hj => ?_, fun j r p hj => ?_⟩
    · by_cases hji : j = i
      · simp only [pre, if_pos hji]
        refine ⟨ht.idle j hj, ?_⟩
        show LockLe c.db.clock (some cred) (c.db.credentials.slot userId).committed
        rw [hcred]
        exact LockLe.refl _ _
      · simp only [pre, if_neg hji]
        exact ht.idle j hj
    · have hji : j ≠ i := by
        rintro rfl
        rw [hi] at hj
        cases hj
      obtain ⟨P, hP, hsafe⟩ := ht.running j r p hj
      exact ⟨P, hP, by simpa only [post, if_neg hji] using hsafe⟩
  obtain ⟨-, hs', htd⟩ := (lockContract env).rel_of_reachable hprog (fun _ _ => True)
    (fun _ => trivial) (fun _ _ _ _ _ => trivial) (fun _ _ _ _ _ _ => trivial)
    (fun _ _ => trivial) hs ht' hd
  have hpost := htd.served hs' hserved
  simp only [post, if_pos] at hpost
  have hacc : (accepted (lifted env i userId cred L) response).holds d.db := hpost
  rw [accepted, haccepted] at hacc
  exact hacc rfl

/-- **The lockout bound**, in the runs that keep the proviso:

* the counter and the lock of a credential are what its history says, so no failure and no
  lock is lost;
* an account with as many failures since the count was last started is locked, for as long
  as a lock lasts from the newest of them;
* while it is locked, no login that starts is accepted before the lock has elapsed and was
  cleared, or the password was replaced. -/
theorem lockout_bound {db₀ : Db} (h₀ : Counted db₀)
    {c : Config ℕ Db Request (Except AppError Response) Query}
    (h : Reachable (authService env) clearsElapsed (.initial db₀) c) {userId : Uuid}
    {cred : Credential} (hcred : (c.db.credentials.slot userId).committed = some cred) :
    (cred.failedAttempts, cred.lockedUntil) = tally cred.trail ∧
    (maxFailedAttempts ≤ (tally cred.trail).1 → ∃ now, lastFailure cred.trail = some now ∧
      cred.lockedUntil = some (now + lockoutSecs)) ∧
    ∀ L i d email password device response, cred.lockedUntil = some L → c.procs i = .idle →
      Reachable (authService env) clearsElapsed c d →
      d.Served i (.login email password device) (.ok response) →
      response.signsIn = some userId → Lifted userId cred L d.db := by
  obtain ⟨hs, ht⟩ := (lockContract env).of_reachable lock_serve h₀.lockInv h₀.free h
  have htally : (cred.failedAttempts, cred.lockedUntil) = tally cred.trail :=
    hs.tallied.committed hcred
  refine ⟨htally, fun hmax => ?_, fun L i d email password device response hL hi hd => ?_⟩
  · obtain ⟨now, hlast, hlock⟩ := locked_of_tally hmax
    refine ⟨now, hlast, ?_⟩
    rw [← hlock, ← htally]
  · exact lifted_of_accepted hs ht hcred hL hi hd

/-! ### Two runs -/

/-- A check that implies the proviso: what is cleared as elapsed is an elapsed lock. -/
def clearsPassed {β : Type} (i : ℕ) : Query β → Db → Bool
  | .credentials _ (.clearFailures u .elapsed now), db => match db.credentials.row i u with
    | some c => c.failedAttempts = 0 && c.lockedUntil.isNone || c.lockedUntil.any (· ≤ now)
    | none => true
  | _, _ => true

theorem clearsElapsed_of_check {q : Query β} (h : clearsPassed i q db = true) :
    clearsElapsed i q db := by
  cases q with
  | credentials m q =>
    cases q with
    | clearFailures u why now =>
      cases why with
      | verified => trivial
      | elapsed =>
        intro c hc hany
        have hrow : db.credentials.row i u = some c := hc
        simp only [clearsPassed, hrow, Bool.or_eq_true, Bool.and_eq_true, decide_eq_true_eq,
          Option.isNone_iff_eq_none, Option.any_eq_true] at h
        rcases h with ⟨hzero, hnone⟩ | ⟨L, hL, hend⟩
        · rcases hany with hne | hsome
          · exact absurd hzero hne
          · rw [hnone] at hsome
            cases hsome
        · exact ⟨L, hL, hend⟩
    | _ => trivial
  | _ => trivial

/-- A sign-in with a wrong password. -/
def wrongPassword : Request := .login "a@b.c".toList "wrong".toList none

/-- Wrong passwords, one request after another. -/
def refusedTo (processes : List ℕ) : List (Event ℕ Request) :=
  processes.flatMap fun i => .arrive i wrongPassword :: List.replicate 6 (.run i)

/-- Eight failures. -/
def lockedOut : List (Event ℕ Request) := refusedTo [1, 2, 3, 4, 5, 6, 7, 8]

/-- A sign-in after the quarter of an hour. -/
def signedInAfterwards : List (Event ℕ Request) :=
  .tick lockoutSecs :: .arrive 10 signInRequest :: List.replicate 16 (.run 10)

theorem oneAccount_counted : Counted oneAccount := by
  refine ⟨fun u => ?_, fun u c hc => ?_⟩ <;> rcases eq_or_ne u 0 with rfl | hne
  · rfl
  · rw [oneAccount, Table.slot_put_of_ne hne]
    rfl
  · rw [oneAccount, Table.slot_put_self] at hc
    obtain rfl := Option.some.inj hc
    rfl
  · rw [oneAccount, Table.slot_put_of_ne hne] at hc
    cases hc

theorem lockout_bound_signedInAfterwards :
    ∃ c d cred, Reachable (authService .plain) clearsElapsed (.initial oneAccount) c ∧
      Reachable (authService .plain) clearsElapsed c d ∧
      (c.db.credentials.slot 0).committed = some cred ∧ cred.lockedUntil = some 900 ∧
      d.Served 10 signInRequest (.ok (.challenged ⟨10, "a@b.c".toList⟩ 0)) ∧
      Lifted 0 cred 900 d.db := by
  obtain ⟨c, d, hreach, hreach', hP⟩ := exists_of_exec_exec
    ((authService .plain).guarded clearsPassed) lockedOut signedInAfterwards (.initial oneAccount)
    (fun c d => (c.db.credentials.slot 0).committed.any (fun cred => cred.lockedUntil = some 900) &&
      decide (c.procs 10 = .idle) &&
      decide (d.Served 10 signInRequest (.ok (.challenged ⟨10, "a@b.c".toList⟩ 0))))
    (by decide +kernel)
  simp only [Bool.and_eq_true, Option.any_eq_true, decide_eq_true_eq] at hP
  obtain ⟨⟨⟨cred, hcred, hL⟩, hi⟩, hserved⟩ := hP
  have hc := reachable_of_guarded (fun _ _ _ => clearsElapsed_of_check) hreach
  have hd := reachable_of_guarded (fun _ _ _ => clearsElapsed_of_check) hreach'
  refine ⟨c, d, cred, hc, hd, hcred, hL, hserved, ?_⟩
  exact (lockout_bound oneAccount_counted hc hcred).2.2 900 10 d _ _ _ _ hL hi hd hserved rfl

/-- A sign-in that finds an elapsed lock and stops short of clearing it, while eight more
failures are recorded. -/
def lockedAgain : List (Event ℕ Request) :=
  lockedOut ++ .tick lockoutSecs ::
    .arrive 9 signInRequest :: List.replicate 5 (.run 9) ++
    .arrive 10 wrongPassword :: List.replicate 9 (.run 10) ++
    refusedTo [11, 12, 13, 14, 15, 16, 17]

/-- The sign-in goes on, and another one comes. -/
def signedInWhileLocked : List (Event ℕ Request) :=
  .run 9 :: .arrive 18 signInRequest :: List.replicate 13 (.run 18)

/-- **A lock is erased by a request that did not see it**, and a password is accepted a
quarter of an hour early. -/
theorem lock_erased :
    ∃ c d cred, Reachable (authService .plain) anyQuery (.initial oneAccount) c ∧
      Reachable (authService .plain) anyQuery c d ∧
      (c.db.credentials.slot 0).committed = some cred ∧
      (cred.failedAttempts, cred.lockedUntil) = (maxFailedAttempts, some 1800) ∧
      tally cred.trail = (maxFailedAttempts, some 1800) ∧ c.procs 18 = .idle ∧
      d.Served 18 signInRequest (.ok (.challenged ⟨18, "a@b.c".toList⟩ 0)) ∧
      d.db.clock < 1800 ∧ ¬ Lifted 0 cred 1800 d.db := by
  obtain ⟨c, d, hc, hd, hP⟩ := exists_of_exec_exec (authService .plain) lockedAgain
    signedInWhileLocked (.initial oneAccount)
    (fun c d => (c.db.credentials.slot 0).committed.any (fun cred =>
        (cred.failedAttempts, cred.lockedUntil) = (maxFailedAttempts, some 1800) &&
        decide (tally cred.trail = (maxFailedAttempts, some 1800)) &&
        (d.db.credentials.slot 0).committed.any fun cred' =>
          cred'.trail = .cleared 9 .elapsed 900 :: cred.trail) &&
      decide (c.procs 18 = .idle) && decide (d.db.clock < 1800) &&
      decide (d.Served 18 signInRequest (.ok (.challenged ⟨18, "a@b.c".toList⟩ 0))))
    (by decide +kernel)
  simp only [Bool.and_eq_true, Option.any_eq_true, decide_eq_true_eq] at hP
  obtain ⟨⟨⟨⟨cred, hcred, ⟨hrow, htally⟩, cred', hcred', htrail⟩, hi⟩, hclock⟩, hserved⟩ := hP
  refine ⟨c, d, cred, hc, hd, hcred, hrow, htally, hi, hserved, hclock, ?_⟩
  rintro ⟨c', newer, hc', htrail', hlift⟩
  -- all that is new is the clearing of a lock that has not elapsed
  obtain rfl : cred' = c' := Option.some.inj (hcred'.symm.trans hc')
  obtain rfl : newer = [.cleared 9 .elapsed 900] :=
    (List.append_cancel_right (htrail.symm.trans htrail')).symm
  rcases hlift with ⟨e, he, hrep⟩ | ⟨⟨L', rfl | ⟨who, now, he, rfl⟩, hend⟩, -⟩
  · obtain rfl := List.mem_singleton.mp he
    cases hrep
  · exact absurd hend (not_le.mpr hclock)
  · cases List.mem_singleton.mp he

end Marketplace
