import Marketplace.Auth.Spends

/-!
# The bound on guesses

A challenge is guessed at no more often than the service allows, matched at most once,
and never once it is spent; a link is used at most once; and the guess of a sign-in by
code is counted whatever becomes of the request. The one thing that can break this is a
transaction that made a guess or used a link and is rolled back, because the row then
forgets what its caller was told: confirming an address does that, when the code
matches and the address turns out to be taken.
-/

namespace Marketplace

open ReadCommitted

variable {env : Env} {i j : ℕ} {db db' : Db} {β : Type}

/-! ### Rows and the record -/

/-- **The row accounts for the statements that found it**: the published version for all
but the newest, which are those of the request that holds the row, and the version that
request is about to publish for all of them. -/
structure Recorded (x : Slot ℕ AuthToken) (es : List Spend) : Prop where
  /-- The version about to be published accounts for everything. -/
  held : ∀ j v, x.lock = some (j, v) → Accounts v es
  /-- The published one accounts for what the holder has not done. -/
  published : ∃ new old, es = new ++ old ∧ Accounts x.committed old ∧
    ∀ e ∈ new, ∃ v, x.lock = some (e.who, v)

namespace Recorded

variable {x : Slot ℕ AuthToken} {es fs : List Spend}

/-- A row that nobody holds accounts for everything. -/
theorem of_unlocked (h : Recorded x es) (hx : x.lock = none) : Accounts x.committed es := by
  obtain ⟨new, old, rfl, hold, hnew⟩ := h.published
  cases new with
  | nil => exact hold
  | cons e new =>
    obtain ⟨v, hv⟩ := hnew e List.mem_cons_self
    rw [hx] at hv
    cases hv

theorem intro_unlocked {o : Option AuthToken} (h : Accounts o es) :
    Recorded { committed := o } es :=
  ⟨fun _ _ => nofun, [], es, rfl, h, fun _ => nofun⟩

/-- What its writer sees accounts for everything. -/
theorem visible (h : Recorded x es) (hfree : x.freeFor i = true) : Accounts (x.visible i) es := by
  rcases Slot.lock_eq_of_freeFor hfree with hnone | ⟨v, hv⟩
  · rw [Slot.visible_of_unlocked hnone]
    exact h.of_unlocked hnone
  · rw [Slot.visible_of_held hv]
    exact h.held i v hv

/-- **A version put over the row**, with the statements of its writer. -/
theorem put {m : Mode} {r : AuthToken} (h : Recorded x es) (hfree : x.freeFor i = true)
    (hr : Accounts (some r) (fs ++ es)) (hfs : ∀ e ∈ fs, e.who = i) :
    Recorded (x.put m i r) (fs ++ es) := by
  cases m with
  | auto => exact intro_unlocked hr
  | tx =>
    refine ⟨fun j v hj => ?_, ?_⟩
    · obtain ⟨-, rfl, -⟩ := Slot.lock_put hj
      exact hr
    · obtain ⟨new, old, rfl, hold, hnew⟩ := h.published
      refine ⟨fs ++ new, old, (List.append_assoc _ _ _).symm, hold, fun e he => ?_⟩
      have hwho : e.who = i := by
        rcases List.mem_append.mp he with he | he
        · exact hfs e he
        · -- whoever made the earlier ones held the row, and it was free for `i`
          obtain ⟨v, hv⟩ := hnew e he
          exact Slot.freeFor_iff.mp hfree _ _ hv
      exact ⟨some r, by rw [hwho]; rfl⟩

theorem commit (h : Recorded x es) : Recorded (x.commit i) es := by
  rcases hx : x.lock with _ | ⟨j, v⟩
  · rw [Slot.commit_of_unlocked hx]
    exact h
  · by_cases hj : j = i
    · subst hj
      rw [Slot.commit_of_held hx]
      exact intro_unlocked (h.held j v hx)
    · rw [Slot.commit_of_other hx hj]
      exact h

/-- **A rollback** of a request that has left no mark on the row. -/
theorem rollback (h : Recorded x es)
    (hmark : ∀ v, x.lock = some (i, v) → ∀ e ∈ es, e.who ≠ i) : Recorded (x.rollback i) es := by
  rcases hx : x.lock with _ | ⟨j, v⟩
  · rw [Slot.rollback_of_unlocked hx]
    exact h
  · by_cases hj : j = i
    · subst hj
      rw [Slot.rollback_of_held hx]
      obtain ⟨new, old, rfl, hold, hnew⟩ := h.published
      cases new with
      | nil => exact intro_unlocked hold
      | cons e new =>
        obtain ⟨w, hw⟩ := hnew e List.mem_cons_self
        rw [hx] at hw
        cases hw
        exact absurd rfl (hmark v hx e (List.mem_append_left _ List.mem_cons_self))
    · rw [Slot.rollback_of_other hx hj]
      exact h

end Recorded

/-! ### Consumed tokens -/

/-- The token is consumed. -/
def IsConsumed (o : Option AuthToken) : Prop := ∃ t, o = some t ∧ t.consumedAt ≠ none

theorem isConsumed_of_later {o o' : Option AuthToken} (h : AuthTokens.Later o o')
    (hc : IsConsumed o) : IsConsumed o' := by
  obtain ⟨t, ht, hclosed⟩ := hc
  obtain ⟨t', ht', hkept⟩ := h t ht
  exact ⟨t', ht', by rwa [hkept.consumedAt hclosed]⟩

/-- A consumed token is not found. -/
theorem spendsOn_of_consumed {q : AuthTokens.Query β} {o : Option AuthToken} (h : IsConsumed o) :
    spendsOn q.key (q.spends i (q.act o).1) = [] := by
  obtain ⟨t, rfl, hclosed⟩ := h
  cases q with
  | consumeOpen => rfl
  | insert => rfl
  | verifyCode k purpose hash n now =>
    have hgone : ((AuthTokens.Query.verifyCode k purpose hash n now).act (some t)).1 = .gone := by
      simp only [AuthTokens.Query.act]
      rw [if_neg fun hlive => hclosed hlive.2.1]
    rw [hgone]
    exact spendsOn_gone i k k now
  | consumeLink k hash purpose now =>
    have hnone : ((AuthTokens.Query.consumeLink k hash purpose now).act (some t)).1 = none := by
      simp only [AuthTokens.Query.act, Table.updating]
      rw [if_neg fun hlive => hclosed hlive.2.2.1]
    rw [hnone]
    rfl

/-- A statement that finds nothing to write leaves no mark. -/
theorem spendsOn_of_miss {q : AuthTokens.Query β} {o : Option AuthToken} (h : (q.act o).2 = none) :
    spendsOn q.key (q.spends i (q.act o).1) = [] := by
  cases q with
  | consumeOpen => rfl
  | insert => rfl
  | verifyCode k purpose hash n now =>
    have hgone : ((AuthTokens.Query.verifyCode k purpose hash n now).act o).1 = .gone := by
      rcases o with _ | t
      · rfl
      · simp only [AuthTokens.Query.act] at h ⊢
        split at h
        · cases h
        · rename_i hdead
          rw [if_neg hdead]
    rw [hgone]
    exact spendsOn_gone i k k now
  | consumeLink k hash purpose now =>
    have hnone : ((AuthTokens.Query.consumeLink k hash purpose now).act o).1 = none := by
      rcases o with _ | t
      · rfl
      · simp only [AuthTokens.Query.act, Table.updating] at h ⊢
        split_ifs at h ⊢
        rfl
    rw [hnone]
    rfl

theorem who_of_spends {q : AuthTokens.Query β} {b : β} {e : Spend} (h : e ∈ q.spends i b) :
    e.who = i := by
  cases q with
  | consumeOpen => cases h
  | insert => cases h
  | verifyCode k purpose hash n now =>
    obtain rfl := List.mem_singleton.mp h
    rfl
  | consumeLink k hash purpose now =>
    rcases b with _ | u
    · cases h
    · obtain rfl := List.mem_singleton.mp h
      rfl

/-! ### The contract -/

/-- **The proviso on rollbacks**: a transaction that has made a guess at a token, or used
it, and still holds it, is not rolled back. -/
def spendsKept : Proviso ℕ Db Query := fun i q db =>
  match q with
  | .rollback => ∀ k v, (db.tokens.slot k).lock = some (i, v) →
      ∀ e ∈ spendsOn k db.spent, e.who ≠ i
  | _ => True

/-- The invariant: every row accounts for the statements that found it. -/
structure SpendInv (db : Db) : Prop where
  /-- Rows account for the record. -/
  recorded : ∀ k, Recorded (db.tokens.slot k) (spendsOn k db.spent)
  /-- Tokens keep their expiry, and stay consumed. -/
  ordered : db.tokens.Ordered AuthTokens.Later

/-- What a query does: a token that is published as consumed is not found again. -/
structure SpendStep (i : ℕ) (db db' : Db) : Prop where
  /-- Rows held by others do not move. -/
  moves : db.tokens.Moves i db'.tokens
  /-- Tokens keep their expiry, and stay consumed. -/
  grown : db.tokens.Grown AuthTokens.Later db'.tokens
  /-- They are not found again. -/
  spent : ∀ k, IsConsumed (db.tokens.slot k).committed →
    spendsOn k db'.spent = spendsOn k db.spent

/-- The queries as the service issues them. -/
def Query.regular : Query β → Bool
  | .tokens _ q => q.regular
  | _ => true

/-- **A token that is published as consumed is not found again.** -/
theorem spendsOn_run_of_consumed {q : Query β} {b : β}
    (hordered : db.tokens.Ordered AuthTokens.Later) (hr : Query.run env q i db = some (b, db'))
    {k : Uuid} (hclosed : IsConsumed (db.tokens.slot k).committed) :
    spendsOn k db'.spent = spendsOn k db.spent := by
  cases q with
  | tokens m q =>
    obtain ⟨t, ht, rfl⟩ := Query.run_tokens hr
    obtain ⟨-, rfl, -⟩ := Table.modify_cases ht
    rw [spendsOn_append]
    by_cases hk : k = q.key
    · subst hk
      have hrow : IsConsumed (db.tokens.row i q.key) :=
        isConsumed_of_later ((hordered q.key).visible AuthTokens.Later.refl) hclosed
      rw [spendsOn_of_consumed hrow]
      rfl
    · rw [spendsOn_of_ne hk]
      rfl
  | commit =>
    obtain rfl := Query.run_commit hr
    rfl
  | rollback =>
    obtain rfl := Query.run_rollback hr
    rfl
  | credentials m q =>
    obtain ⟨t, -, rfl⟩ := Query.run_credentials hr
    rfl
  | sessions q =>
    obtain ⟨t, -, rfl⟩ := Query.run_sessions hr
    rfl
  | users q =>
    obtain ⟨t, -, rfl⟩ := Query.run_users hr
    rfl
  | enqueue k email =>
    obtain ⟨t, -, rfl⟩ := Query.run_enqueue hr
    rfl

/-- **One query keeps every row's account.** -/
theorem SpendInv.run {q : Query β} {b : β} (h : SpendInv db) (hq : q.regular = true)
    (hC : spendsKept i q db) (hr : Query.run env q i db = some (b, db')) :
    SpendInv db' ∧ SpendStep i db db' := by
  have heff := (Query.effects hr).tokens
  have hord := heff.ordered AuthTokens.Later.refl AuthTokens.Later.trans h.ordered
    fun k r hA => AuthTokens.Later.act hA
  suffices hrec : ∀ k, Recorded (db'.tokens.slot k) (spendsOn k db'.spent) from
    ⟨⟨hrec, hord.1⟩, heff.moves, hord.2, fun _ => spendsOn_run_of_consumed h.ordered hr⟩
  intro k
  cases q with
  | tokens m q =>
    obtain ⟨t, ht, rfl⟩ := Query.run_tokens hr
    obtain ⟨hfree, rfl, hput⟩ := Table.modify_cases ht
    by_cases hk : k = q.key
    · subst hk
      rw [spendsOn_append]
      rcases hput with ⟨hnone, rfl⟩ | ⟨r, hr', rfl⟩
      · rw [spendsOn_of_miss hnone]
        exact h.recorded q.key
      · have hacc := ((h.recorded q.key).visible hfree).act (i := i) hq
        rw [← Table.row, hr'] at hacc
        rw [Table.slot_put_self]
        refine (h.recorded q.key).put hfree hacc fun e he => ?_
        exact who_of_spends (List.mem_filter.mp he).1
    · rw [spendsOn_append, spendsOn_of_ne hk, Table.slot_modify_of_ne ht hk]
      exact h.recorded k
  | commit =>
    obtain rfl := Query.run_commit hr
    exact (h.recorded k).commit
  | rollback =>
    obtain rfl := Query.run_rollback hr
    exact (h.recorded k).rollback (hC k)
  | credentials m q =>
    obtain ⟨t, -, rfl⟩ := Query.run_credentials hr
    exact h.recorded k
  | sessions q =>
    obtain ⟨t, -, rfl⟩ := Query.run_sessions hr
    exact h.recorded k
  | users q =>
    obtain ⟨t, -, rfl⟩ := Query.run_users hr
    exact h.recorded k
  | enqueue l email =>
    obtain ⟨t, -, rfl⟩ := Query.run_enqueue hr
    exact h.recorded k

/-- **The contract** of the statements that spend tokens. -/
def spendContract (env : Env) : Contract (authService env) spendsKept where
  inv := SpendInv
  guar := SpendStep
  inv_tick := fun _ h => ⟨h.recorded, h.ordered⟩
  rollback := by
    intro i db db' h hC hr
    have hq : Query.rollback.regular = true := rfl
    have hr' : Query.run env .rollback i db = some ((), db') := hr
    exact h.run hq hC hr'

theorem spend_sound {q : Query β} (hq : q.regular = true) : (spendContract env).Sound q := by
  intro i db b db' h hC hr
  rw [authService_run] at hr
  exact h.run hq hC hr

/-! ### Requests -/

/-- The request holds no token. -/
def noTokens (env : Env) (i : ℕ) : Assertion (spendContract env) i where
  holds db := ∀ k v, (db.tokens.slot k).lock ≠ some (i, v)
  stable := fun hne _ _ hg h k v hk => h k v ((hg.moves k).lock_of_other hk (Ne.symm hne))
  tick := fun _ _ h => h

/-- The queries that leave no token held. -/
def Query.holdsToken : Query β → Bool
  | .tokens .tx _ => true
  | _ => false

theorem keeps_noTokens {q : Query β} (hq : q.regular = true) (hhold : q.holdsToken = false) :
    (spendContract env).Keeps (noTokens env i) q := by
  intro db b db' hs h hC hr
  obtain ⟨hs', hg⟩ := spend_sound hq i db b db' hs hC hr
  refine ⟨hs', hg, ?_⟩
  rw [authService_run] at hr
  cases q with
  | tokens m q =>
    cases m with
    | tx => cases hhold
    | auto =>
      obtain ⟨t, ht, rfl⟩ := Query.run_tokens hr
      exact fun k v hk => h k v (Table.lock_modify_auto ht hk)
  | commit =>
    obtain rfl := Query.run_commit hr
    exact fun k v hk => (Slot.lock_of_commit hk).1 rfl
  | rollback =>
    obtain rfl := Query.run_rollback hr
    exact fun k v hk => (Slot.lock_of_rollback hk).1 rfl
  | credentials m q =>
    obtain ⟨t, -, rfl⟩ := Query.run_credentials hr
    exact h
  | sessions q =>
    obtain ⟨t, -, rfl⟩ := Query.run_sessions hr
    exact h
  | users q =>
    obtain ⟨t, -, rfl⟩ := Query.run_users hr
    exact h
  | enqueue k email =>
    obtain ⟨t, -, rfl⟩ := Query.run_enqueue hr
    exact h

/-- What is known of a request that was answered: a sign-in by code holds no token. -/
def spendPost (env : Env) (i : ℕ) :
    Request → Except AppError Response → Assertion (spendContract env) i
  | .verifyLoginCode _ _, _ => noTokens env i
  | _, _ => .any

/-- A request of which nothing is to be known. -/
theorem spend_safe {r : Request} (hpost : ∀ a, spendPost env i r a = .any)
    (h : (serve env i r).run.Each fun q => q.regular = true) :
    Safe (spendPost env i r) (serve env i r).run (noTokens env i) := by
  refine (Safe.of_sound (Prog.Each.mono h fun q hq => spend_sound hq)).conseq
    (fun _ _ _ => trivial) fun a _ _ _ => ?_
  rw [hpost a]
  trivial

theorem issues_regular {userId : Uuid} {purpose : Purpose} {authorisedBy : Option ℕ} :
    Issues (fun q => q.regular = true) i userId purpose authorisedBy :=
  ⟨fun _ _ => rfl, fun _ _ => rfl, fun _ => rfl⟩

/-- **Every request is safe.** -/
theorem spend_serve (i : ℕ) (r : Request) :
    Safe (spendPost env i r) ((authService env).program i r) (noTokens env i) := by
  cases r with
  | verifyLoginCode challengeId code =>
    exact Safe.keep (each_verifyLoginCode (keeps_noTokens rfl rfl) (keeps_noTokens rfl rfl)
      (fun _ => keeps_noTokens rfl rfl) (fun _ _ => keeps_noTokens rfl rfl)
      fun _ _ => keeps_noTokens rfl rfl)
  | login email password device =>
    exact spend_safe (fun _ => rfl) (each_login rfl rfl (fun _ _ => rfl) (fun _ _ => rfl)
      (fun _ => rfl) (fun _ _ => rfl) (fun _ _ => rfl) (fun _ _ => issues_regular) fun _ _ => rfl)
  | changePassword userId sessionId current new =>
    exact spend_safe (fun _ => rfl) (each_changePassword rfl rfl rfl (fun _ => rfl)
      (fun _ _ => rfl) (fun _ => rfl) fun _ _ => rfl)
  | confirmPasswordReset token new =>
    exact spend_safe (fun _ => rfl) (each_confirmPasswordReset rfl rfl (fun _ _ => rfl)
      (fun _ => rfl) (fun _ _ _ => rfl) fun _ _ => rfl)
  | resendLoginCode challengeId =>
    exact spend_safe (fun _ => rfl) (each_resendLoginCode rfl rfl fun _ _ => issues_regular)
  | requestPasswordReset email =>
    exact spend_safe (fun _ => rfl) (each_requestPasswordReset rfl rfl fun _ => issues_regular)
  | requestEmailVerification userId newEmail =>
    exact spend_safe (fun _ => rfl) (each_requestEmailVerification rfl rfl issues_regular)
  | confirmEmail userId challengeId code email =>
    exact spend_safe (fun _ => rfl) (each_confirmEmail rfl rfl (fun _ => rfl) (fun _ => rfl)
      fun _ => rfl)
  | logout sessionId => exact spend_safe (fun _ => rfl) (each_logout rfl rfl fun _ => rfl)
  | logoutAll userId => exact spend_safe (fun _ => rfl) (each_logoutAll rfl rfl fun _ _ => rfl)

/-! ### The result -/

/-- No token has been guessed at or used yet, and none is held. -/
structure Unspent (db : Db) : Prop where
  /-- No row is held. -/
  unlocked : ∀ k, (db.tokens.slot k).lock = none
  /-- No token has seen a guess. -/
  unguessed : ∀ k t, (db.tokens.slot k).committed = some t → t.attempts = 0
  /-- The record is empty. -/
  empty : db.spent = []

theorem Unspent.spendInv (h : Unspent db) : SpendInv db := by
  refine ⟨fun k => ?_, fun k j v hk => ?_⟩
  · refine ⟨fun j v hk => ?_, [], [], ?_, ?_, fun _ => nofun⟩
    · rw [h.unlocked k] at hk
      cases hk
    · rw [h.empty]
      rfl
    · rcases hc : (db.tokens.slot k).committed with _ | t
      · exact Accounts.missing
      · exact Accounts.inserted (h.unguessed k t hc)
  · rw [h.unlocked k] at hk
    cases hk

/-- Tokens that are published as consumed are not found again. -/
def SpendGrown (db db' : Db) : Prop :=
  ∀ k, IsConsumed (db.tokens.slot k).committed →
    IsConsumed (db'.tokens.slot k).committed ∧ spendsOn k db'.spent = spendsOn k db.spent

theorem SpendGrown.refl (db : Db) : SpendGrown db db := fun _ hc => ⟨hc, rfl⟩

theorem SpendGrown.trans (db₁ db₂ db₃ : Db) (h : SpendGrown db₁ db₂) (h' : SpendGrown db₂ db₃) :
    SpendGrown db₁ db₃ := by
  intro k hc
  obtain ⟨hc₂, he₂⟩ := h k hc
  obtain ⟨hc₃, he₃⟩ := h' k hc₂
  exact ⟨hc₃, he₃.trans he₂⟩

theorem mem_spendsOn {k : Uuid} {e : Spend} {es : List Spend} :
    e ∈ spendsOn k es ↔ e ∈ es ∧ e.touches k = true :=
  List.mem_filter

theorem touches_guess {who : ℕ} {k : Uuid} {outcome : CodeOutcome} {now : Instant}
    (h : outcome ≠ .gone) : (Spend.guess who k outcome now).touches k = true := by
  cases outcome with
  | gone => exact absurd rfl h
  | _ => simp [Spend.touches, Spend.key, Spend.compared]

/-- A match comes before the expiry of the published token. -/
theorem SpendInv.before (h : SpendInv db) {k : Uuid} {t : AuthToken} {e : Spend}
    (he : e ∈ spendsOn k db.spent) (ht : (db.tokens.slot k).committed = some t) :
    e.Before t.expiresAt := by
  obtain ⟨new, old, hsplit, hold, hnew⟩ := (h.recorded k).published
  rcases List.mem_append.mp (hsplit ▸ he) with hmem | hmem
  · obtain ⟨v, hv⟩ := hnew e hmem
    obtain ⟨t', rfl, hkept⟩ := h.ordered k _ v hv t ht
    rw [← hkept.expiresAt]
    exact ((h.recorded k).held _ _ hv).before t' rfl e he
  · exact hold.before t ht e hmem

/-- A statement of a request that does not hold the row is counted in the published
version. -/
theorem SpendInv.counted (h : SpendInv db) {k : Uuid} {e : Spend} (he : e ∈ spendsOn k db.spent)
    (hnone : ∀ v, (db.tokens.slot k).lock ≠ some (e.who, v)) :
    ∃ t es, (db.tokens.slot k).committed = some t ∧ es <:+ spendsOn k db.spent ∧ e ∈ es ∧
      t.attempts = es.countP Spend.compared := by
  obtain ⟨new, old, hsplit, hold, hnew⟩ := (h.recorded k).published
  have hmem : e ∈ old := by
    refine (List.mem_append.mp (hsplit ▸ he)).resolve_left fun hmem => ?_
    obtain ⟨v, hv⟩ := hnew e hmem
    exact hnone v hv
  rcases hc : (db.tokens.slot k).committed with _ | t
  · rw [hold.absent hc] at hmem
    cases hmem
  · exact ⟨t, old, rfl, ⟨new, hsplit.symm⟩, hmem, hold.count t hc⟩

theorem SpendInv.orderly (h : SpendInv db) (k : Uuid) : Orderly (spendsOn k db.spent) := by
  rcases hl : (db.tokens.slot k).lock with _ | ⟨j, v⟩
  · exact ((h.recorded k).of_unlocked hl).orderly
  · exact ((h.recorded k).held j v hl).orderly

/-- **The bound on guesses**, in the runs that keep the proviso:

* no challenge is guessed at more often than the service allows;
* no challenge is matched twice, and no link is used twice;
* a guess or a use finds no earlier match or use, and attempts left;
* no match comes after the challenge has expired;
* a guess of a sign-in by code is counted in the published row, whatever the request
  was answered with;
* a token that is published as consumed is not found again. -/
theorem guess_bound {db₀ : Db} (h₀ : Unspent db₀)
    {c : Config ℕ Db Request (Except AppError Response) Query}
    (h : Reachable (authService env) spendsKept (.initial db₀) c) :
    (∀ k, (spendsOn k c.db.spent).countP Spend.compared ≤ maxCodeAttempts) ∧
    (∀ k, (spendsOn k c.db.spent).countP Spend.wins ≤ 1) ∧
    (∀ k e es, e :: es <:+ spendsOn k c.db.spent →
      es.countP Spend.wins = 0 ∧ es.countP Spend.compared < maxCodeAttempts) ∧
    (∀ who k userId authorisedBy now t,
      .guess who k (.matched userId authorisedBy) now ∈ c.db.spent →
      (c.db.tokens.slot k).committed = some t → now < t.expiresAt) ∧
    (∀ i k code answer outcome now, c.Served i (.verifyLoginCode k code) answer →
      .guess i k outcome now ∈ c.db.spent → outcome ≠ .gone →
      ∃ t es, (c.db.tokens.slot k).committed = some t ∧ es <:+ spendsOn k c.db.spent ∧
        .guess i k outcome now ∈ es ∧ t.attempts = es.countP Spend.compared) ∧
    ∀ d, Reachable (authService env) spendsKept c d → ∀ k,
      IsConsumed (c.db.tokens.slot k).committed →
      IsConsumed (d.db.tokens.slot k).committed ∧
        spendsOn k d.db.spent = spendsOn k c.db.spent := by
  have hbegun : ∀ i, (noTokens env i).holds db₀ := by
    intro i k v hk
    rw [h₀.unlocked k] at hk
    cases hk
  obtain ⟨hs, ht⟩ := (spendContract env).of_reachable spend_serve h₀.spendInv hbegun h
  refine ⟨fun k => (hs.orderly k).compared_le, fun k => (hs.orderly k).wins_le, ?_, ?_, ?_, ?_⟩
  · intro k e es hsuff
    exact ((hs.orderly k).of_suffix hsuff).1
  · intro who k userId authorisedBy now t he hcom
    exact hs.before (mem_spendsOn.mpr ⟨he, touches_guess nofun⟩) hcom
  · intro i k code answer outcome now hserved he hfound
    have hnone : (noTokens env i).holds c.db := ht.served hs hserved
    exact hs.counted (mem_spendsOn.mpr ⟨he, touches_guess hfound⟩) (hnone k)
  · intro d hd k hclosed
    exact (spendContract env).rel_of_reachable spend_serve SpendGrown SpendGrown.refl
      SpendGrown.trans (fun i db db' _ _ hg k hc => ⟨isConsumed_of_later (hg.grown k) hc, hg.spent k hc⟩)
      (fun db n => SpendGrown.refl db) hs ht hd |>.1 k hclosed

/-! ### Two runs -/

/-- A check that implies the proviso. -/
def keepsSpends {β : Type} (i : ℕ) : Query β → Db → Bool
  | .rollback, db => db.tokens.keys.all fun k => match (db.tokens.slot k).lock with
    | some (j, _) => decide (j ≠ i) || (spendsOn k db.spent).all fun e => decide (e.who ≠ i)
    | none => true
  | _, _ => true

theorem spendsKept_of_check {q : Query β} (h : keepsSpends i q db = true) : spendsKept i q db := by
  cases q with
  | rollback =>
    intro k v hk e he
    have hmem : k ∈ db.tokens.keys := by
      by_contra hk'
      rw [db.tokens.empty_of_not_mem k hk'] at hk
      cases hk
    have hpass := List.all_eq_true.mp h k hmem
    rw [hk] at hpass
    simp only [ne_eq, not_true_eq_false, decide_false, Bool.false_or, List.all_eq_true,
      decide_eq_true_eq] at hpass
    exact hpass e he
  | _ => trivial

/-- A wrong code, for the challenge that process 1 opened. -/
def wrongCodeRequest : Request := .verifyLoginCode 1 "999999".toList

/-- A sign-in, and a wrong code. -/
def oneWrongCode : List (Event ℕ Request) :=
  .arrive 1 signInRequest :: List.replicate 13 (.run 1) ++
    .arrive 2 wrongCodeRequest :: List.replicate 4 (.run 2)

theorem guess_bound_oneWrongCode :
    ∃ c, Reachable (authService .plain) spendsKept (.initial oneAccount) c ∧
      c.Served 2 wrongCodeRequest (.error badCode) ∧
      ∃ t es, (c.db.tokens.slot 1).committed = some t ∧ es <:+ spendsOn 1 c.db.spent ∧
        .guess 2 1 .wrong 0 ∈ es ∧ t.attempts = es.countP Spend.compared := by
  have hrun : (exec ((authService .plain).guarded keepsSpends) oneWrongCode
      (.initial oneAccount)).isSome = true := by decide
  have hreach : Reachable (authService .plain) spendsKept (.initial oneAccount)
      (afterRun _ _ _ hrun) :=
    reachable_of_guarded (fun _ _ _ => spendsKept_of_check) (reachable_afterRun hrun)
  have hserved : (afterRun _ _ _ hrun).Served 2 wrongCodeRequest (.error badCode) := rfl
  have hfresh : Unspent oneAccount := ⟨fun _ => rfl, nofun, rfl⟩
  refine ⟨_, hreach, hserved, ?_⟩
  exact (guess_bound hfresh hreach).2.2.2.2.1 2 1 _ _ .wrong 0 hserved List.mem_cons_self nofun

/-- Two accounts, the second with an address that the first would like to have. -/
def twoAccounts : Db :=
  { oneAccount with
    users := oneAccount.users.put 1
      { committed := some { firstUser with email := some "x@y.z".toList } } }

/-- The right code, for an address that is taken. -/
def takenAddressRequest : Request := .confirmEmail 0 1 (generateCode .plain 1) "x@y.z".toList

/-- A code for the address, and two attempts to confirm it. -/
def confirmedTwice : List (Event ℕ Request) :=
  .arrive 1 (.requestEmailVerification 0 (some "x@y.z".toList)) :: List.replicate 6 (.run 1) ++
    .arrive 2 takenAddressRequest :: List.replicate 6 (.run 2) ++
    .arrive 3 takenAddressRequest :: List.replicate 6 (.run 3)

/-- What a request for an address that is taken is answered with. -/
def addressTaken : AppError := .conflict "That email address is already registered."

/-- **A challenge is matched twice**, and is as good as new afterwards: each match was
rolled back when the address turned out to be taken. -/
theorem matched_twice :
    ∃ c, Reachable (authService .plain) anyQuery (.initial twoAccounts) c ∧
      c.Served 2 takenAddressRequest (.error addressTaken) ∧
      c.Served 3 takenAddressRequest (.error addressTaken) ∧
      (spendsOn 1 c.db.spent).countP Spend.wins = 2 ∧
      ∃ t, (c.db.tokens.slot 1).committed = some t ∧ t.consumedAt = none ∧ t.attempts = 0 := by
  have hrun : (exec (authService .plain) confirmedTwice (.initial twoAccounts)).isSome = true := by
    decide
  exact ⟨_, reachable_afterRun hrun, rfl, rfl, rfl, _, rfl, rfl, rfl⟩

end Marketplace
