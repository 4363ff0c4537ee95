import Marketplace.Auth.Guesses
import Marketplace.ReadCommitted.Answers

/-!
# What becomes of a challenge whose code came back

The right code consumes its challenge in the transaction that then writes the address. When the
address turns out to be taken, or the challenge to be somebody else's, the transaction is rolled
back, and the challenge is as good as new.

So a confirmation that is answered well has spent its challenge for good, and one whose code was
right and which is answered with an error has published nothing, neither on the account nor on the
challenge (`Marketplace.confirmEmail_spends`). The code is spent whenever it matches in the runs in
which the code of a challenge is only ever sent back by its owner, and an address is only ever
proved when it is free (`Marketplace.confirmsOwn`).
-/

namespace Marketplace

open ReadCommitted

variable {env : Env} {i j : ℕ} {k userId : Uuid} {db db' : Db} {β : Type}

/-! ### Confirmations that match -/

/-- A guess of the request at the challenge has matched. -/
def HasMatched (i : ℕ) (k : Uuid) (db : Db) : Prop :=
  ∃ owner authorisedBy now, .guess i k (.matched owner authorisedBy) now ∈ db.spent

/-- **A confirmation comes from the owner of its challenge, for an address that is free**: when a
code is compared for an account, the account is there and has the challenge whose code it is; when
an address is set, it is one that the column takes and that no other account has. -/
def confirmsOwn (env : Env) (caller : ℕ → Uuid) : Proviso ℕ Db Query := fun i q db =>
  match q with
  | .tokens _ (.verifyCode k .emailVerify hash _ _) =>
    (db.users.slot (caller i)).committed ≠ none ∧
      ∀ t, db.tokens.row i k = some t → t.tokenHash = hash → t.userId = caller i
  | .users (.updateEmail userId email _) =>
    emailCheck email = true ∧ Users.normTaken env i userId (env.emailNorm email) db.users = false
  | _ => True

/-- The queries that are run are those of confirmations by this account. -/
def Fits (env : Env) (C : Proviso ℕ Db Query) (i : ℕ) (userId : Uuid) : Prop :=
  ∃ caller, caller i = userId ∧ ∀ {β : Type} (q : Query β) db, C i q db → confirmsOwn env caller i q db

/-- What is published of the accounts: their addresses, and when they were proved. -/
def Db.proved (db : Db) (l : Uuid) : Option (Option Text × Option Instant) :=
  (db.users.slot l).committed.map fun u => (u.email, u.emailVerifiedAt)

/-- What is published of a challenge. -/
def Db.challenge (db : Db) (k : Uuid) : Option AuthToken := (db.tokens.slot k).committed

/-! ### The contract -/

/-- An account that is there stays there. -/
def Users.Stays (o o' : Option User) : Prop := o ≠ none → o' ≠ none

theorem Users.Stays.refl (o : Option User) : Users.Stays o o := id

theorem Users.Stays.trans (o₁ o₂ o₃ : Option User) (h : Users.Stays o₁ o₂) (h' : Users.Stays o₂ o₃) :
    Users.Stays o₁ o₃ :=
  fun hne => h' (h hne)

/-- Versions follow one another. -/
structure ConfirmInv (db : Db) : Prop where
  tokens : db.tokens.Ordered AuthTokens.Later
  users : db.users.Ordered Users.Stays

/-- What a query does: it adds its own statements to the record. -/
structure ConfirmStep (i : ℕ) (db db' : Db) : Prop where
  moves : db.tokens.Moves i db'.tokens
  tokens : db.tokens.Grown AuthTokens.Later db'.tokens
  users : db.users.Grown Users.Stays db'.users
  spent : ∃ es, db'.spent = es ++ db.spent ∧ ∀ e ∈ es, e.who = i

/-- **Every query keeps the order.** -/
theorem ConfirmInv.run {q : Query β} {b : β} (h : ConfirmInv db)
    (hr : Query.run env q i db = some (b, db')) : ConfirmInv db' ∧ ConfirmStep i db db' := by
  have heff := Query.effects hr
  obtain ⟨htokens, htokens'⟩ := heff.tokens.ordered AuthTokens.Later.refl AuthTokens.Later.trans
    h.tokens fun k r hA => AuthTokens.Later.act hA
  obtain ⟨husers, husers'⟩ := heff.users.ordered Users.Stays.refl Users.Stays.trans h.users
    fun k r _ _ => Option.some_ne_none r
  refine ⟨⟨htokens, husers⟩, heff.tokens.moves, htokens', husers', ?_⟩
  cases q with
  | tokens m q =>
    obtain ⟨t, -, rfl⟩ := Query.run_tokens hr
    exact ⟨_, rfl, fun e he => who_of_spends he⟩
  | commit =>
    obtain rfl := Query.run_commit hr
    exact ⟨[], rfl, nofun⟩
  | rollback =>
    obtain rfl := Query.run_rollback hr
    exact ⟨[], rfl, nofun⟩
  | credentials m q =>
    obtain ⟨t, -, rfl⟩ := Query.run_credentials hr
    exact ⟨[], rfl, nofun⟩
  | sessions q =>
    obtain ⟨t, -, rfl⟩ := Query.run_sessions hr
    exact ⟨[], rfl, nofun⟩
  | users q =>
    obtain ⟨t, -, rfl⟩ := Query.run_users hr
    exact ⟨[], rfl, nofun⟩
  | enqueue l email =>
    obtain ⟨t, -, rfl⟩ := Query.run_enqueue hr
    exact ⟨[], rfl, nofun⟩

/-- **The contract** of confirmations, under any proviso. -/
def confirmContract (env : Env) (C : Proviso ℕ Db Query) : Contract (authService env) C where
  inv := ConfirmInv
  guar := ConfirmStep
  inv_tick := fun _ h => ⟨h.tokens, h.users⟩
  rollback := fun h _ hr => @ConfirmInv.run env _ _ _ _ .rollback _ h hr

variable {C : Proviso ℕ Db Query}

theorem confirm_sound {q : Query β} : (confirmContract env C).Sound q :=
  fun _ _ _ _ h _ hr => @ConfirmInv.run env _ _ _ _ _ _ h hr

/-! ### What a confirmation knows -/

/-- The request has not compared a code. -/
def unguessed (env : Env) (C : Proviso ℕ Db Query) (i : ℕ) : Assertion (confirmContract env C) i where
  holds db := ∀ e ∈ db.spent, e.who ≠ i
  stable := by
    intro j db db' hne _ _ hg h e he
    obtain ⟨es, hspent, hwho⟩ := hg.spent
    rw [hspent] at he
    rcases List.mem_append.mp he with he | he
    · rw [hwho e he]
      exact hne
    · exact h e he
  tick := fun _ _ h => h

/-- No guess of the request at the challenge has matched. -/
def unmatched (env : Env) (C : Proviso ℕ Db Query) (i : ℕ) (k : Uuid) :
    Assertion (confirmContract env C) i where
  holds db := ¬ HasMatched i k db
  stable := by
    rintro j db db' hne _ _ hg h ⟨owner, authorisedBy, now, hmem⟩
    obtain ⟨es, hspent, hwho⟩ := hg.spent
    rw [hspent] at hmem
    rcases List.mem_append.mp hmem with hmem | hmem
    · exact hne (hwho _ hmem).symm
    · exact h ⟨owner, authorisedBy, now, hmem⟩
  tick := fun _ _ h => h

/-- The request is about to publish the challenge as consumed. -/
def closing (env : Env) (C : Proviso ℕ Db Query) (i : ℕ) (k : Uuid) :
    Assertion (confirmContract env C) i where
  holds db := ∃ v, (db.tokens.slot k).lock = some (i, v) ∧ IsConsumed v
  stable := fun hne _ _ hg ⟨v, hlock, hv⟩ => ⟨v, (hg.moves.lock_iff hne).mpr hlock, hv⟩
  tick := fun _ _ h => h

/-- The challenge is published as consumed. -/
def closed (env : Env) (C : Proviso ℕ Db Query) (i : ℕ) (k : Uuid) :
    Assertion (confirmContract env C) i where
  holds db := IsConsumed (db.challenge k)
  stable := fun _ _ _ hg h => isConsumed_of_later (hg.tokens k) h
  tick := fun _ _ h => h

/-- The account is there. -/
def signedUp (env : Env) (C : Proviso ℕ Db Query) (i : ℕ) (userId : Uuid) :
    Assertion (confirmContract env C) i where
  holds db := (db.users.slot userId).committed ≠ none
  stable := fun _ _ _ hg h => hg.users userId h
  tick := fun _ _ h => h

/-- What is known once a code has been compared: the challenge is about to be published as consumed,
or nothing has matched. -/
def compared (env : Env) (C : Proviso ℕ Db Query) (i : ℕ) (k userId : Uuid) :
    CodeOutcome → Assertion (confirmContract env C) i
  | .matched owner _ => ((closing env C i k).and (.fact (Fits env C i userId → owner = userId))).and
    (.imp (Fits env C i userId) (signedUp env C i userId))
  | _ => unmatched env C i k

/-- What is known before the transaction ends: it is rolled back only where the proviso does not
hold. -/
def ending (env : Env) (C : Proviso ℕ Db Query) (i : ℕ) (k userId : Uuid) :
    Except AppError (Except AppError Response) → Assertion (confirmContract env C) i
  | .ok (.ok _) => closing env C i k
  | .ok (.error _) => unmatched env C i k
  | .error e => .fact (e ≠ badCode ∧ ¬ Fits env C i userId)

/-- **What is known of an answer**: the challenge is spent, or nothing has matched, or the proviso
did not hold and the answer is not that the code is wrong. -/
def concluded (env : Env) (C : Proviso ℕ Db Query) (i : ℕ) (k userId : Uuid) :
    Except AppError Response → Assertion (confirmContract env C) i
  | .ok _ => closed env C i k
  | .error e => .imp (e = badCode ∨ Fits env C i userId) (unmatched env C i k)

section Confirm

variable {hash : Digest} {begun : Instant} {email : Text}

/-- **What comparing a code does.** -/
theorem compared_of_run {m : ℕ} {outcome : CodeOutcome} (h : (unguessed env C i).holds db)
    (hC : C i (.tokens .tx (.verifyCode k .emailVerify hash m begun)) db)
    (hr : Query.run env (.tokens .tx (.verifyCode k .emailVerify hash m begun)) i db =
      some (outcome, db')) : (compared env C i k userId outcome).holds db' := by
  obtain ⟨t, ht, rfl⟩ := Query.run_tokens hr
  obtain ⟨hfree, houtcome, hput⟩ := Table.modify_cases ht
  have hnone (hne : ∀ owner authorisedBy, outcome ≠ .matched owner authorisedBy) :
      ¬ HasMatched i k { db with
        tokens := t
        spent := (AuthTokens.Query.verifyCode k .emailVerify hash m begun).spends i outcome ++
          db.spent } := by
    rintro ⟨owner, authorisedBy, now, hmem⟩
    rcases List.mem_append.mp hmem with hmem | hmem
    · have heq := List.mem_singleton.mp hmem
      exact hne owner authorisedBy (by cases heq; rfl)
    · exact h _ hmem rfl
  rcases outcome with ⟨owner, authorisedBy⟩ | _ | _
  · rcases hrow : db.tokens.row i k with _ | r
    · simp only [AuthTokens.Query.key, AuthTokens.Query.act, hrow] at houtcome
      cases houtcome
    simp only [AuthTokens.Query.key, AuthTokens.Query.act, hrow] at houtcome hput
    by_cases hlive : r.purpose = .emailVerify ∧ r.consumedAt = none ∧ begun < r.expiresAt
    · rw [if_pos hlive] at houtcome hput
      by_cases hmatch : r.tokenHash = hash
      · rw [if_pos hmatch] at houtcome
        obtain ⟨rfl, rfl⟩ := CodeOutcome.matched.inj houtcome
        rcases hput with ⟨hnothing, -⟩ | ⟨r', hr', rfl⟩
        · cases hnothing
        · obtain rfl := Option.some.inj hr'
          refine ⟨⟨⟨_, by rw [Table.slot_put_self]; rfl, _, rfl, ?_⟩, ?_⟩, ?_⟩
          · simp [hmatch]
          · rintro ⟨caller, rfl, hfits⟩
            exact (hfits _ _ hC).2 r hrow hmatch
          · rintro ⟨caller, rfl, hfits⟩
            exact (hfits _ _ hC).1
      · rw [if_neg hmatch] at houtcome
        cases houtcome
    · rw [if_neg hlive] at houtcome
      cases houtcome
  · exact hnone (by rintro _ _ ⟨⟩)
  · exact hnone (by rintro _ _ ⟨⟩)

/-- A code is compared, if there is anything to compare it with. -/
theorem confirm_verifyCode : Safe (Assertion.onOk (compared env C i k userId)
      fun e => ending env C i k userId (.error e))
    (verifyCode .tx k .emailVerify hash maxCodeAttempts begun).run (unguessed env C i) := by
  refine Safe.look_keep fun hit => ?_
  cases hit
  · exact Safe.ret fun db _ h ⟨owner, authorisedBy, now, hmem⟩ => h _ hmem rfl
  · refine Safe.query_andThen (compared env C i k userId) ?_ fun _ => Safe.ret fun _ _ h => h
    intro db outcome db' hs h hC hr
    rw [authService_run] at hr
    obtain ⟨hs', hg⟩ := hs.run hr
    exact ⟨hs', hg, compared_of_run h hC hr⟩

/-- An account that is published as there is seen to be there. -/
theorem row_ne_none (hs : ConfirmInv db) (h : (db.users.slot userId).committed ≠ none) :
    db.users.row i userId ≠ none :=
  (hs.users userId).visible Users.Stays.refl h

/-- The refusals of an address are none of a code. -/
theorem updateEmail_error {e : AppError} {t t' : Table ℕ Uuid User}
    (h : Users.updateEmail env i userId email begun t = some (.error e, t')) : e ≠ badCode := by
  rw [Users.updateEmail] at h
  split_ifs at h
  · cases h
    rintro ⟨⟩
  · cases h
    rintro ⟨⟩
  · obtain ⟨-, hb, -⟩ := Table.modify_cases h
    rcases hrow : t.row i userId with _ | u
    · simp only [hrow] at hb
      cases hb
      rintro ⟨⟩
    · simp only [hrow] at hb
      cases hb

/-- An address that is free is set on an account that is there. -/
theorem updateEmail_ok {b : Except AppError User} {t t' : Table ℕ Uuid User}
    (hcheck : emailCheck email = true)
    (hfree : Users.normTaken env i userId (env.emailNorm email) t = false)
    (hrow : t.row i userId ≠ none)
    (h : Users.updateEmail env i userId email begun t = some (b, t')) : ∃ u, b = .ok u := by
  have hpasses : ¬ (!emailCheck email) = true := by rw [hcheck]; decide
  have huntaken : ¬ Users.normTaken env i userId (env.emailNorm email) t = true := by
    rw [hfree]
    decide
  rw [Users.updateEmail, if_neg hpasses] at h
  by_cases hpending : Users.normPending env i userId (env.emailNorm email) t = true
  · rw [if_pos hpending] at h
    cases h
  · rw [if_neg hpending, if_neg huntaken] at h
    obtain ⟨-, hb, -⟩ := Table.modify_cases h
    obtain ⟨u, hu⟩ := Option.ne_none_iff_exists'.mp hrow
    simp only [hu] at hb
    exact ⟨_, hb⟩

/-- What is known while the account of the caller is looked at. -/
def matching (env : Env) (C : Proviso ℕ Db Query) (i : ℕ) (k userId : Uuid) :
    Assertion (confirmContract env C) i :=
  (closing env C i k).and (.imp (Fits env C i userId) (signedUp env C i userId))

/-- A statement on accounts leaves the challenge as it is. -/
theorem keeps_matching {q : Users.Query β} :
    (confirmContract env C).Keeps (matching env C i k userId) (.users q) := by
  intro db b db' hs h _ hr
  rw [authService_run] at hr
  obtain ⟨hs', hg⟩ := hs.run hr
  obtain ⟨t, -, rfl⟩ := Query.run_users hr
  exact ⟨hs', hg, h.1, fun hfits => hg.users userId (h.2 hfits)⟩

/-- The account is looked at: it is there where the proviso holds. -/
theorem confirm_findUserById {γ : Type} {post : Except AppError γ → Assertion (confirmContract env C) i}
    {f : Option User → Serving γ}
    (hmissing : ¬ Fits env C i userId → Safe post (f none).run (matching env C i k userId))
    (hfound : ∀ u, Safe post (f (some u)).run (matching env C i k userId)) :
    Safe post (findUserById userId >>= f).run (matching env C i k userId) := by
  refine Safe.look_andThen (fun user => (matching env C i k userId).and
    (.fact (user = none → ¬ Fits env C i userId))) ?_ fun user => ?_
  · exact fun db hs h => ⟨h, fun hnone hfits => row_ne_none hs (h.2 hfits) hnone⟩
  · rcases user with _ | u
    · by_cases hfits : Fits env C i userId
      · exact Safe.of_false fun db h => h.2 rfl hfits
      · exact Safe.conseq (hmissing hfits) (fun _ _ h => h.1) fun _ _ _ h => h
    · exact Safe.conseq (hfound u) (fun _ _ h => h.1) fun _ _ _ h => h

theorem confirm_markEmailVerified {R : AppError → Assertion (confirmContract env C) i} :
    Safe (Assertion.onOk (fun _ => matching env C i k userId) R)
      (markEmailVerified userId begun).run (matching env C i k userId) := by
  refine Safe.look_keep fun hit => ?_
  cases hit
  · exact Safe.ret fun _ _ h => h
  · refine Safe.query_andThen (fun _ => matching env C i k userId) ?_ fun _ =>
      Safe.ret fun _ _ h => h
    exact keeps_matching

/-- **What follows a code that matched** fails only where the proviso does not hold. -/
theorem confirm_recordAddress : Safe (ending env C i k userId)
    (recordAddress userId email begun).run (matching env C i k userId) := by
  refine confirm_findUserById (fun hfits => Safe.ret fun _ _ _ => ⟨nofun, hfits⟩) fun u => ?_
  dsimp only
  split
  · refine Safe.andThen (fun _ => matching env C i k userId) confirm_markEmailVerified fun _ => ?_
    · refine confirm_findUserById (fun hfits => Safe.ret fun _ _ _ => ⟨nofun, hfits⟩) fun u => ?_
      exact Safe.ret fun _ _ h => h.1
  · refine Safe.query_andThen (Assertion.onOk (fun _ => closing env C i k)
      fun e => ending env C i k userId (.error e)) ?_ fun written => ?_
    · intro db written db' hs h hC hr
      obtain ⟨hs', hg, hmatching⟩ := keeps_matching db written db' hs h hC hr
      rw [authService_run] at hr
      obtain ⟨t, ht, rfl⟩ := Query.run_users hr
      refine ⟨hs', hg, ?_⟩
      rcases written with e | u'
      · refine ⟨updateEmail_error ht, ?_⟩
        rintro ⟨caller, rfl, hfits⟩
        have hrow := row_ne_none (i := i) hs (h.2 ⟨caller, rfl, hfits⟩)
        obtain ⟨u', hu'⟩ := updateEmail_ok (hfits _ _ hC).1 (hfits _ _ hC).2 hrow ht
        cases hu'
      · exact hmatching.1
    · rcases written with e | u'
      · exact Safe.ret fun _ _ h => h
      · exact Safe.ret fun _ _ h => h

/-- **A confirmation** that is answered well has spent its challenge. -/
theorem confirm_confirmEmail {code : Text} : Safe (concluded env C i k userId)
    (confirmEmail env userId k code email).run (unguessed env C i) := by
  refine Safe.andThen (Assertion.onOk (fun _ => closed env C i k) fun _ => unmatched env C i k) ?_
    fun result => ?_
  · refine Safe.look_andThen (fun _ => unguessed env C i) (fun _ _ h => h) fun begun => ?_
    refine Safe.transaction (ending env C i k userId) ?_ ?_ ?_
    · refine Safe.andThen _ confirm_verifyCode fun outcome => ?_
      cases outcome with
      | wrong => exact Safe.ret fun _ _ h => h
      | gone => exact Safe.ret fun _ _ h => h
      | matched owner authorisedBy =>
        dsimp only
        by_cases howner : owner ≠ userId
        · rw [if_pos howner]
          exact Safe.ret fun _ _ h => ⟨nofun, fun hfits => howner (h.1.2 hfits)⟩
        · rw [if_neg howner]
          exact Safe.conseq confirm_recordAddress (fun _ _ h => ⟨h.1.1, h.2⟩) fun _ _ _ h => h
    · intro result db u db' hs h _ hr
      rw [authService_run] at hr
      obtain ⟨hs', hg⟩ := hs.run hr
      obtain rfl := Query.run_commit hr
      refine ⟨hs', hg, ?_⟩
      rcases result with e | response
      · exact h
      · obtain ⟨v, hlock, hv⟩ := h
        have hpublished : (db.commit i).challenge k = v := by
          show ((db.tokens.slot k).commit i).committed = v
          rw [Slot.commit_of_held hlock]
        show IsConsumed ((db.commit i).challenge k)
        rw [hpublished]
        exact hv
    · intro e db u db' hs h _ hr
      rw [authService_run] at hr
      obtain ⟨hs', hg⟩ := hs.run hr
      refine ⟨hs', hg, ?_⟩
      rintro (rfl | hfits)
      · exact absurd rfl h.1
      · exact absurd hfits h.2
  · rcases result with e | response
    · exact Safe.ret fun _ _ h _ => h
    · exact Safe.ret fun _ _ h => h

end Confirm

/-! ### Runs -/

/-- What is known of a request that was answered. -/
def confirmPost (env : Env) (C : Proviso ℕ Db Query) (i : ℕ) :
    Request → Except AppError Response → Assertion (confirmContract env C) i
  | .confirmEmail userId k _ _, answer => concluded env C i k userId answer
  | _, _ => .any

/-- Nothing is known of what another request does. -/
theorem confirm_safe {r : Request} (hpost : ∀ a, confirmPost env C i r a = .any) :
    Safe (confirmPost env C i r) (serve env i r).run (unguessed env C i) := by
  refine (Safe.of_sound (Prog.each_of_forall fun _ => confirm_sound)).conseq
    (fun _ _ _ => trivial) fun a _ _ _ => ?_
  rw [hpost a]
  trivial

theorem confirm_serve (i : ℕ) (r : Request) :
    Safe (confirmPost env C i r) ((authService env).program i r) (unguessed env C i) := by
  cases r with
  | confirmEmail userId k code email => exact confirm_confirmEmail
  | _ => exact confirm_safe fun _ => rfl

/-! ### What is published -/

/-- The queries that may publish something of an account or of a challenge. -/
def Query.discloses {β : Type} : Query β → Prop
  | .commit => True
  | .tokens .auto _ => True
  | _ => False

/-- What is published of all accounts and all challenges. -/
def Db.disclosed (db : Db) :
    (Uuid → Option (Option Text × Option Instant)) × (Uuid → Option AuthToken) :=
  (db.proved, db.challenge)

/-- A statement of an open transaction publishes nothing of an account. -/
theorem Users.committed_run {q : Users.Query β} {b : β} {t t' : Table ℕ Uuid User}
    (h : q.run env i t = some (b, t')) (l : Uuid) :
    (t'.slot l).committed = (t.slot l).committed := by
  cases q with
  | markEmailVerified userId now => exact Table.committed_modify h l
  | updateEmail userId email now =>
    rcases Users.updateEmail_cases h with ⟨-, rfl⟩ | ⟨u, -, -, -, rfl⟩
    · rfl
    · rw [Table.slot_put]
      split
      · rename_i hl
        subst hl
        rfl
      · rfl

/-- **Nothing is published but by a commit**, or by a statement of its own. -/
theorem disclosed_run {q : Query β} {b : β} (hr : Query.run env q i db = some (b, db'))
    (hq : ¬ q.discloses) : db'.disclosed = db.disclosed := by
  cases q with
  | tokens m q =>
    cases m with
    | auto => exact absurd trivial hq
    | tx =>
      obtain ⟨t, ht, rfl⟩ := Query.run_tokens hr
      exact Prod.ext rfl (funext fun k => Table.committed_modify ht k)
  | commit => exact absurd trivial hq
  | rollback =>
    obtain rfl := Query.run_rollback hr
    refine Prod.ext (funext fun l => ?_) (funext fun _ => Slot.rollback_committed)
    show ((db.users.slot l).rollback i).committed.map _ = _
    rw [Slot.rollback_committed]
    rfl
  | users q =>
    obtain ⟨t, ht, rfl⟩ := Query.run_users hr
    refine Prod.ext (funext fun l => ?_) rfl
    show (t.slot l).committed.map _ = _
    rw [Users.committed_run ht l]
    rfl
  | credentials m q =>
    obtain ⟨t, -, rfl⟩ := Query.run_credentials hr
    rfl
  | sessions q =>
    obtain ⟨t, -, rfl⟩ := Query.run_sessions hr
    rfl
  | enqueue l email =>
    obtain ⟨t, -, rfl⟩ := Query.run_enqueue hr
    rfl

/-- The answers that a confirmation gives after its transaction was committed: a good one, or that
the code is wrong. -/
def Filed (a : Except AppError Response) : Prop := a.isOk = true ∨ a = .error badCode

/-- What the body of a confirmation hands to its commit, if it does not fail, is such an answer. -/
def Files (a : Except AppError (Except AppError Response)) : Prop :=
  ∀ result, a = .ok result → Filed result

theorem files_error {e : AppError} : Files (.error e) := by
  rintro _ ⟨⟩

theorem files_ok {response : Response} : Files (.ok (.ok response)) := by
  rintro _ ⟨⟩
  exact Or.inl rfl

theorem files_badCode : Files (.ok (.error badCode)) := by
  rintro _ ⟨⟩
  exact Or.inr rfl

theorem answers_recordAddress {email : Text} {now : Instant} :
    (recordAddress userId email now).run.Answers Files := by
  refine Action.answers_andThen (fun _ => files_error) fun user => ?_
  rcases user with _ | user
  · exact files_error
  · dsimp only
    split
    · refine Action.answers_andThen (fun _ => files_error) fun _ => ?_
      refine Action.answers_andThen (fun _ => files_error) fun user => ?_
      rcases user with _ | user
      · exact files_error
      · exact files_ok
    · refine Action.answers_andThen (fun _ => files_error) fun written => ?_
      rcases written with e | user
      · exact files_error
      · exact files_ok

/-- A transaction whose body discloses nothing publishes with its last word. -/
theorem settles_files {body : Serving (Except AppError Response)}
    (hbody : body.run.Each fun q => ¬ q.discloses) (hfiles : body.run.Answers Files) :
    (Action.transaction .commit .rollback body).run.Settles Query.discloses
      fun a => a.isOk = true ∧ Files a :=
  (Action.settles_transaction id hbody).and (Action.answers_transaction hfiles)

/-- **A confirmation publishes with its last word**, and then answers well or that the code is
wrong. -/
theorem settles_confirmEmail {code email : Text} :
    (confirmEmail env userId k code email).run.Settles Query.discloses Filed := by
  refine Prog.Settles.bind (Action.settles_andThen (fun _ => trivial) fun begun =>
    settles_files ?_ ?_) (fun a => ?_) fun a ha => ?_
  · refine Action.each_andThen (each_verifyCode id) fun outcome => ?_
    cases outcome with
    | wrong => exact trivial
    | gone => exact trivial
    | matched owner authorisedBy =>
      dsimp only
      split
      · exact trivial
      · exact each_recordAddress id id
  · refine Action.answers_andThen (fun _ => files_error) fun outcome => ?_
    cases outcome with
    | wrong => exact files_badCode
    | gone => exact files_badCode
    | matched owner authorisedBy =>
      dsimp only
      split
      · exact files_error
      · exact answers_recordAddress
  · rcases a with e | (e | response) <;> exact trivial
  · rcases a with e | result
    · cases ha.1
    · rcases result with e | response
      · exact ha.2 _ rfl
      · exact Or.inl rfl

/-- What is known of the last word of a request. -/
def Closes : Request → Except AppError Response → Prop
  | .confirmEmail _ _ _ _, a => Filed a
  | _, _ => True

theorem settles_serve (i : ℕ) (r : Request) :
    ((authService env).program i r).Settles Query.discloses (Closes r) := by
  cases r with
  | confirmEmail userId k code email => exact settles_confirmEmail
  | _ => exact Prog.settles_of_forall fun _ => trivial

/-! ### The result -/

/-- No code has been compared, and nobody is at work. -/
structure Unconfirmed (db : Db) : Prop where
  /-- No challenge is held. -/
  tokens : ∀ k, (db.tokens.slot k).lock = none
  /-- No account is held. -/
  users : ∀ k, (db.users.slot k).lock = none
  /-- The record is empty. -/
  empty : db.spent = []

/-- **The challenge is spent for good**: it is published as consumed, it stays so, and no guess at
it is compared with its code any more. -/
def IsSpent (env : Env) (k : Uuid) (c : Config ℕ Db Request (Except AppError Response) Query) : Prop :=
  IsConsumed (c.db.challenge k) ∧ ∀ d, Reachable (authService env) anyQuery c d →
    IsConsumed (d.db.challenge k) ∧ spendsOn k d.db.spent = spendsOn k c.db.spent

/-- A challenge that is published as consumed is spent for good. -/
theorem isSpent_of_closed {c : Config ℕ Db Request (Except AppError Response) Query}
    (hs : ConfirmInv c.db) (h : IsConsumed (c.db.challenge k)) : IsSpent env k c := by
  refine ⟨h, fun d hd => ?_⟩
  have hrun : ∀ {β : Type} (q : Query β) i db b db', ConfirmInv db → anyQuery i q db →
      (authService env).run q i db = some (b, db') → ConfirmInv db' ∧ SpendGrown db db' := by
    intro β q i db b db' hs _ hr
    obtain ⟨hs', hg⟩ := hs.run hr
    exact ⟨hs', fun k hc => ⟨isConsumed_of_later (hg.tokens k) hc,
      spendsOn_run_of_consumed hs.tokens hr hc⟩⟩
  obtain ⟨-, hgrown⟩ := rel_of_run ConfirmInv SpendGrown SpendGrown.refl SpendGrown.trans hrun
    (fun db n hs => ⟨⟨hs.tokens, hs.users⟩, SpendGrown.refl db⟩) hs hd
  exact hgrown k h

/-- What is known of every confirmation that was answered. -/
theorem concluded_of_served {db₀ : Db} (h₀ : Unconfirmed db₀) {C : Proviso ℕ Db Query}
    {c : Config ℕ Db Request (Except AppError Response) Query}
    (h : Reachable (authService env) C (.initial db₀) c) {code email : Text}
    {answer : Except AppError Response}
    (hserved : c.Served i (.confirmEmail userId k code email) answer) :
    ConfirmInv c.db ∧ (concluded env C i k userId answer).holds c.db := by
  have hinv : ConfirmInv db₀ :=
    ⟨Table.ordered_of_unlocked h₀.tokens, Table.ordered_of_unlocked h₀.users⟩
  have hbegun : ∀ i, (unguessed env C i).holds db₀ := by
    intro i e he
    rw [h₀.empty] at he
    cases he
  obtain ⟨hs, htrack⟩ := (confirmContract env C).of_reachable confirm_serve hinv hbegun h
  exact ⟨hs, htrack.served hs hserved⟩

/-- **A code that matches, and its challenge.** Take a confirmation that was answered, and whose
code has matched.

* In the runs in which codes are sent back by the owners of their challenges, for addresses that are
  free, the challenge is spent for good.
* In all runs it is spent for good if the answer is a good one.
* In all runs, an answer that is an error is not that the code is wrong, and nothing was published:
  no step of the request changed what is published of an account's address and its proof, or of a
  challenge. -/
theorem confirmEmail_spends {db₀ : Db} (h₀ : Unconfirmed db₀)
    {c : Config ℕ Db Request (Except AppError Response) Query} :
    (∀ caller, Reachable (authService env) (confirmsOwn env caller) (.initial db₀) c →
      ∀ i k code email answer, c.Served i (.confirmEmail (caller i) k code email) answer →
        HasMatched i k c.db → IsSpent env k c) ∧
    (Reachable (authService env) anyQuery (.initial db₀) c →
      ∀ i userId k code email answer, c.Served i (.confirmEmail userId k code email) answer →
        HasMatched i k c.db →
        (∀ response, answer = .ok response → IsSpent env k c) ∧
        ∀ e, answer = .error e → e ≠ badCode ∧
          ∀ a b, Reachable (authService env) anyQuery (.initial db₀) a →
            StepOf (authService env) anyQuery i a b → Reachable (authService env) anyQuery b c →
            b.db.proved = a.db.proved ∧ b.db.challenge = a.db.challenge) := by
  refine ⟨fun caller h i k code email answer hserved hmatched => ?_,
    fun h i userId k code email answer hserved hmatched => ?_⟩
  · obtain ⟨hs, hknown⟩ := concluded_of_served h₀ h hserved
    refine isSpent_of_closed hs ?_
    rcases answer with e | response
    · have hfits : Fits env (confirmsOwn env caller) i (caller i) := ⟨caller, rfl, fun _ _ h => h⟩
      exact absurd hmatched (hknown (Or.inr hfits))
    · exact hknown
  · obtain ⟨hs, hknown⟩ := concluded_of_served h₀ h hserved
    refine ⟨?_, ?_⟩
    · rintro response rfl
      exact isSpent_of_closed hs hknown
    · rintro e rfl
      have hne : e ≠ badCode := fun heq => hknown (Or.inl heq) hmatched
      refine ⟨hne, fun a b ha hstep hb => ?_⟩
      have hopen : ¬ Closes (.confirmEmail userId k code email) (.error e) := by
        rintro (hok | hbad)
        · cases hok
        · exact hne (Except.error.inj hbad)
      have hsame : b.db.disclosed = a.db.disclosed :=
        eq_of_served Db.disclosed settles_serve (show ¬ Query.rollback.discloses from nofun)
          (fun _ _ _ _ _ => disclosed_run) ha hstep hb hserved hopen
      exact Prod.mk.inj hsame

/-! ### Two runs -/

/-- A check that implies the proviso, when the account `k` confirms. -/
def keepsOwn (env : Env) (k : Uuid) {β : Type} (i : ℕ) : Query β → Db → Bool
  | .tokens _ (.verifyCode l .emailVerify hash _ _), db => (db.users.slot k).committed.isSome &&
      (db.tokens.row i l).all fun t => !decide (t.tokenHash = hash) || decide (t.userId = k)
  | .users (.updateEmail userId email _), db =>
      emailCheck email && !Users.normTaken env i userId (env.emailNorm email) db.users
  | _, _ => true

theorem confirmsOwn_of_check {q : Query β} (h : keepsOwn env k i q db = true) :
    confirmsOwn env (fun _ => k) i q db := by
  cases q with
  | tokens m q =>
    cases q with
    | verifyCode l purpose hash n now =>
      cases purpose with
      | emailVerify =>
        obtain ⟨hthere, hown⟩ := Bool.and_eq_true_iff.mp h
        refine ⟨Option.isSome_iff_ne_none.mp hthere, fun t ht heq => ?_⟩
        rw [ht] at hown
        simpa [heq] using hown
      | _ => trivial
    | _ => trivial
  | users q =>
    cases q with
    | updateEmail userId email now =>
      obtain ⟨hcheck, hfree⟩ := Bool.and_eq_true_iff.mp h
      exact ⟨hcheck, by simpa using hfree⟩
    | _ => trivial
  | _ => trivial

/-- The right code for a new address. -/
def rightCodeRequest : Request := .confirmEmail 0 1 (generateCode .plain 1) "x@y.z".toList

/-- The code for a new address comes back. -/
def codeBack : List (Event ℕ Request) :=
  .arrive 1 (.requestEmailVerification 0 (some "x@y.z".toList)) :: List.replicate 6 (.run 1) ++
    .arrive 2 rightCodeRequest :: List.replicate 6 (.run 2)

/-- The first account, with the new address. -/
def movedUser : User :=
  { firstUser with email := some "x@y.z".toList, emailVerifiedAt := some 0, provedBy := some 2 }

theorem oneAccount_unconfirmed : Unconfirmed oneAccount where
  tokens _ := rfl
  users k := by
    rcases eq_or_ne k 0 with rfl | hne
    · rfl
    · rw [oneAccount, Table.slot_put_of_ne hne]
      rfl
  empty := rfl

theorem confirmEmail_spends_codeBack :
    ∃ c, Reachable (authService .plain) (confirmsOwn .plain fun _ => 0) (.initial oneAccount) c ∧
      c.Served 2 rightCodeRequest (.ok (.account movedUser)) ∧ HasMatched 2 1 c.db ∧
      IsSpent .plain 1 c := by
  have hrun : (exec ((authService .plain).guarded (keepsOwn .plain 0)) codeBack
      (.initial oneAccount)).isSome = true := by decide +kernel
  have hreach : Reachable (authService .plain) (confirmsOwn .plain fun _ => 0)
      (.initial oneAccount) (afterRun _ _ _ hrun) :=
    reachable_of_guarded (fun _ _ _ => confirmsOwn_of_check) (reachable_afterRun hrun)
  have hserved : (afterRun _ _ _ hrun).Served 2 rightCodeRequest (.ok (.account movedUser)) := rfl
  have hmatched : HasMatched 2 1 (afterRun _ _ _ hrun).db := ⟨0, none, 0, List.mem_cons_self⟩
  exact ⟨_, hreach, hserved, hmatched, (confirmEmail_spends oneAccount_unconfirmed).1 (fun _ => 0)
    hreach 2 1 _ _ _ hserved hmatched⟩

/-- The same code again. -/
def codeAgain : List (Event ℕ Request) :=
  .arrive 3 rightCodeRequest :: List.replicate 3 (.run 3)

/-- A guess of the request at the first challenge has matched. -/
def hasMatched (i : ℕ) (db : Db) : Bool := db.spent.any fun e => decide (e = .guess i 1 (.matched 0 none) 0)

theorem hasMatched_of_check (h : hasMatched i db = true) : HasMatched i 1 db := by
  obtain ⟨e, he, heq⟩ := List.any_eq_true.mp h
  obtain rfl := of_decide_eq_true heq
  exact ⟨0, none, 0, he⟩

/-- **A code that matched is as good as new**, where the address was taken: the challenge is not
consumed, and the same code matches again. -/
theorem confirmEmail_keeps :
    ∃ c d, Reachable (authService .plain) anyQuery (.initial twoAccounts) c ∧
      c.Served 2 rightCodeRequest (.error addressTaken) ∧ HasMatched 2 1 c.db ∧
      ¬ IsConsumed (c.db.challenge 1) ∧
      Reachable (authService .plain) anyQuery c d ∧ HasMatched 3 1 d.db := by
  obtain ⟨c, d, hc, hd, hP⟩ := exists_of_exec_exec (authService .plain) codeBack codeAgain
    (.initial twoAccounts) (fun c d => decide (c.Served 2 rightCodeRequest (.error addressTaken)) &&
      hasMatched 2 c.db && ((c.db.challenge 1).all fun t => t.consumedAt.isNone) &&
      hasMatched 3 d.db) (by decide +kernel)
  simp only [Bool.and_eq_true, decide_eq_true_eq] at hP
  obtain ⟨⟨⟨hserved, hmatched⟩, hopen⟩, hagain⟩ := hP
  refine ⟨c, d, hc, hserved, hasMatched_of_check hmatched, ?_, hd, hasMatched_of_check hagain⟩
  rintro ⟨t, ht, hclosed⟩
  rw [ht] at hopen
  exact hclosed (Option.isNone_iff_eq_none.mp hopen)

end Marketplace
