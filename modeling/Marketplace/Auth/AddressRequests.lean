import Marketplace.Auth.Addresses

/-!
# An address is proved with a code that was sent to it

Confirming an address spends the code of a challenge and then writes the account's row, in
one transaction. What the request knows when it writes is what the challenge was for
(`Marketplace.spending`), and what it leaves on the row names the request
(`Marketplace.recording`). So every row that a confirmation has written is accounted for:
the challenge was the account's, its code was sent, and it was sent to the address that is
now on the row, unless the code that came back was cut at another colon.
-/

namespace Marketplace

open ReadCommitted

variable {env : Env} {i j : ℕ} {db db' : Db} {α β : Type}

/-! ### Assertions -/

/-- The request holds no account, and no account names it. -/
def unrecorded (env : Env) (i : ℕ) : Assertion (addressContract env) i where
  holds db := (∀ l v, (db.users.slot l).lock ≠ some (i, v)) ∧
    db.users.Holds fun _ (u : User) => u.provedBy ≠ some i
  stable := by
    intro j db db' hne _ _ hg h
    refine ⟨fun l v hl => h.1 l v ((hg.users l).lock_of_other hl (Ne.symm hne)), ?_⟩
    intro l u hu hproved
    refine h.2 l u (hg.proved l u hu fun hj => hne ?_) hproved
    exact (Option.some.inj (hproved.symm.trans hj)).symm
  tick := fun _ _ h => h

/-- The request has not done anything yet. -/
def unstarted (env : Env) (i : ℕ) : Assertion (addressContract env) i where
  holds db := (unrecorded env i).holds db ∧ ∀ k v, (db.tokens.slot k).lock ≠ some (i, v)
  stable := fun hne hs hs' hg h => ⟨(unrecorded env i).stable hne hs hs' hg h.1,
    fun k v hk => h.2 k v ((hg.tokens k).lock_of_other hk (Ne.symm hne))⟩
  tick := fun n hs h => ⟨(unrecorded env i).tick n hs h.1, h.2⟩

theorem posted_of_unstarted (h : (unstarted env i).holds db) : (posted env i).holds db :=
  fun k _ hk => absurd hk (h.2 k _)

/-- **What the request is about to record** on an account is as `φ` says, and it has not
been published. -/
def recording (env : Env) (i : ℕ) (φ : Uuid → User → Prop) : Assertion (addressContract env) i where
  holds db := (∀ l u, (db.users.slot l).committed = some u → u.provedBy ≠ some i) ∧
    ∀ l j u, (db.users.slot l).lock = some (j, some u) → j = i ∧ φ l u ∨ u.provedBy ≠ some i
  stable := by
    intro j db db' hne _ _ hg h
    -- a version that names the request is one that it wrote, and nobody has touched that row
    have hkey : ∀ l u, (db'.users.slot l).Version u → u.provedBy = some i →
        db'.users.slot l = db.users.slot l ∧ (db.users.slot l).lock = some (i, some u) ∧ φ l u := by
      intro l u hu hproved
      have hj : u.provedBy ≠ some j := by
        rw [hproved]
        exact fun hij => hne (Option.some.inj hij).symm
      rcases hg.proved l u hu hj with hc | ⟨j', hl⟩
      · exact absurd hproved (h.1 l u hc)
      · rcases h.2 l j' u hl with ⟨rfl, hφ⟩ | hnot
        · exact ⟨(hg.users l).eq_of_held hl (Ne.symm hne), hl, hφ⟩
        · exact absurd hproved hnot
    refine ⟨fun l u hc hproved => ?_, fun l j' u hl => ?_⟩
    · rw [(hkey l u (Or.inl hc) hproved).1] at hc
      exact h.1 l u hc hproved
    · by_cases hproved : u.provedBy = some i
      · obtain ⟨hsame, hl', hφ⟩ := hkey l u (Or.inr ⟨j', hl⟩) hproved
        rw [hsame, hl'] at hl
        cases hl
        exact Or.inl ⟨rfl, hφ⟩
      · exact Or.inr hproved
  tick := fun _ _ h => h

/-- **What the request has recorded** is as `φ` says. -/
def onRecord (env : Env) (i : ℕ) (φ : Uuid → User → Prop) : Assertion (addressContract env) i where
  holds db := db.users.Holds fun l (u : User) => u.provedBy = some i → φ l u
  stable := by
    intro j db db' hne _ _ hg h l u hu hproved
    refine h l u (hg.proved l u hu fun hj => hne ?_) hproved
    exact (Option.some.inj (hproved.symm.trans hj)).symm
  tick := fun _ _ h => h

/-- What a token that was spent at this instant says. -/
structure SpentFor (userId : Uuid) (hash : Digest) (begun : Instant) (t : AuthToken) : Prop where
  /-- Whom it was for. -/
  userId : t.userId = userId
  /-- What it was for. -/
  purpose : t.purpose = .emailVerify
  /-- Its digest. -/
  tokenHash : t.tokenHash = hash
  /-- When it was spent. -/
  consumedAt : t.consumedAt = some begun
  /-- It had not expired. -/
  alive : begun < t.expiresAt

theorem SpentFor.kept {userId : Uuid} {hash : Digest} {begun : Instant} {t t' : AuthToken}
    (h : SpentFor userId hash begun t) (hk : AuthTokens.Kept t t') :
    SpentFor userId hash begun t' where
  userId := hk.userId.trans h.userId
  purpose := hk.purpose.trans h.purpose
  tokenHash := hk.tokenHash.trans h.tokenHash
  consumedAt := (hk.consumedAt (by rw [h.consumedAt]; nofun)).trans h.consumedAt
  alive := by rw [hk.expiresAt]; exact h.alive

/-- **The request is spending the challenge**, and its message was queued. -/
def spending (env : Env) (i : ℕ) (k userId : Uuid) (hash : Digest) (begun : Instant) :
    Assertion (addressContract env) i where
  holds db := ∃ t code address, (db.tokens.slot k).lock = some (i, some t) ∧
    SpentFor userId hash begun t ∧ Mailed env k t code address (db.outbox.slot k).committed
  stable := by
    rintro j db db' hne - - hg ⟨t, code, address, hk, hspent, hmailed⟩
    refine ⟨t, code, address, ?_, hspent, hmailed.later ?_ (hg.outboxGrown k)⟩
    · rw [(hg.tokens k).eq_of_held hk (Ne.symm hne), hk]
    · exact ⟨rfl, rfl, rfl, rfl, fun _ => rfl⟩
  tick := fun _ _ h => h

/-- **The challenge is spent**, and its message was queued. -/
def spentOn (env : Env) (i : ℕ) (k userId : Uuid) (hash : Digest) (begun : Instant) :
    Assertion (addressContract env) i where
  holds db := ∃ t code address, (db.tokens.slot k).committed = some t ∧
    SpentFor userId hash begun t ∧ Mailed env k t code address (db.outbox.slot k).committed
  stable := by
    rintro j db db' - - - hg ⟨t, code, address, hk, hspent, hmailed⟩
    obtain ⟨t', ht', hkept⟩ := hg.tokensGrown k t hk
    exact ⟨t', code, address, ht', hspent.kept hkept, hmailed.later hkept (hg.outboxGrown k)⟩
  tick := fun _ _ h => h

/-- What the request saw of the account is what is published, unless that is verified. -/
def seenUser (env : Env) (i : ℕ) (userId : Uuid) :
    Option User → Assertion (addressContract env) i
  | some u₀ =>
    { holds := fun db => ∃ u, (db.users.slot userId).committed = some u ∧
        (u.emailVerifiedAt = none → u = u₀)
      stable := by
        rintro j db db' - - - hg ⟨u, hu, hseen⟩
        obtain ⟨u', hu', hkept⟩ := hg.usersGrown userId u hu
        refine ⟨u', hu', fun hnone => ?_⟩
        obtain rfl := hkept hnone
        exact hseen hnone
      tick := fun _ _ h => h }
  | none => .any

/-! ### What each step of a confirmation does -/

section Confirm

variable {k userId owner : Uuid} {hash : Digest} {code address : Text} {begun : Instant}
  {φ : Uuid → User → Prop}

/-- What a confirmation records: the account, now, with the address up to letter case. -/
def Proves (env : Env) (userId : Uuid) (address : Text) (begun : Instant) (l : Uuid) (u : User) :
    Prop :=
  l = userId ∧ u.emailVerifiedAt = some begun ∧
    ∃ A, u.email = some A ∧ env.toLowercase A = env.toLowercase address

theorem recording_of_unrecorded (h : (unrecorded env i).holds db) :
    (recording env i φ).holds db :=
  ⟨fun l u hc => h.2 l u (Or.inl hc), fun l j u hl => Or.inr (h.2 l u (Or.inr ⟨j, hl⟩))⟩

theorem recording_mono {ψ : Uuid → User → Prop} (h : (recording env i φ).holds db)
    (hφ : ∀ l u, φ l u → ψ l u) : (recording env i ψ).holds db :=
  ⟨h.1, fun l j u hl => (h.2 l j u hl).imp_left fun hown => ⟨hown.1, hφ l u hown.2⟩⟩

/-- A version put over one account by its holder. -/
theorem recording_put {l : Uuid} {u : User} (h : (unrecorded env i).holds db) (hφ : φ l u) :
    (recording env i φ).holds
      { db with users := db.users.put l ((db.users.slot l).put .tx i u) } := by
  have hold : (recording env i φ).holds db := recording_of_unrecorded h
  refine ⟨fun l' u' hc => ?_, fun l' j u' hl => ?_⟩ <;> rcases eq_or_ne l' l with rfl | hne
  · dsimp only at hc
    rw [Table.slot_put_self] at hc
    exact hold.1 l' u' hc
  · exact hold.1 l' u' (by rwa [← Table.slot_put_of_ne hne])
  · dsimp only at hl
    rw [Table.slot_put_self] at hl
    obtain ⟨rfl, hu, -⟩ := Slot.lock_put hl
    cases hu
    exact Or.inl ⟨rfl, hφ⟩
  · exact hold.2 l' j u' (by rwa [← Table.slot_put_of_ne hne])

/-- A request that ends its transaction has recorded what it was about to, or nothing. -/
theorem recorded_commit (h : (recording env i φ).holds db) :
    (onRecord env i φ).holds (db.commit i) := by
  intro l u hu hproved
  rcases Slot.version_commit hu with hc | ⟨j, hl⟩
  · exact absurd hproved (h.1 l u hc)
  · rcases h.2 l j u hl with ⟨-, hφ⟩ | hnot
    · exact hφ
    · exact absurd hproved hnot

theorem recorded_rollback (h : (recording env i φ).holds db) :
    (onRecord env i fun _ _ => False).holds (db.rollback i) := by
  intro l u hu hproved
  rcases hu with hc | ⟨j, hl⟩
  · have hc' : ((db.users.slot l).rollback i).committed = some u := hc
    rw [Slot.rollback_committed] at hc'
    exact h.1 l u hc' hproved
  · obtain ⟨hne, hl⟩ := Slot.lock_of_rollback hl
    rcases h.2 l j u hl with ⟨rfl, -⟩ | hnot
    · exact hne rfl
    · exact hnot hproved

/-- Queries on other tables leave the accounts alone. -/
def Query.sparesUsers : Query β → Bool
  | .users _ => false
  | .commit => false
  | .rollback => false
  | _ => true

theorem Query.users_of_spares {q : Query β} {b : β} (hq : q.sparesUsers = true)
    (h : Query.run env q i db = some (b, db')) : db'.users = db.users := by
  cases q with
  | credentials m q =>
    obtain ⟨t, -, rfl⟩ := Query.run_credentials h
    rfl
  | tokens m q =>
    obtain ⟨t, -, rfl⟩ := Query.run_tokens h
    rfl
  | sessions q =>
    obtain ⟨t, -, rfl⟩ := Query.run_sessions h
    rfl
  | enqueue k email =>
    obtain ⟨t, -, rfl⟩ := Query.run_enqueue h
    rfl
  | users q => cases hq
  | commit => cases hq
  | rollback => cases hq

/-- **The code matched**: the challenge is being spent, and it was sent. -/
theorem address_matched {authorisedBy : Option ℕ} (hs : AddressInv env db)
    (h : (unstarted env i).holds db)
    (hr : Query.run env (.tokens .tx (.verifyCode k .emailVerify hash maxCodeAttempts begun)) i db =
      some (.matched owner authorisedBy, db')) :
    (spending env i k owner hash begun).holds db' := by
  obtain ⟨t', hmod, rfl⟩ := Query.run_tokens hr
  obtain ⟨-, hans, hput⟩ := Table.modify_cases hmod
  -- the request held no token, so what it found is what is published
  have hrow : db.tokens.row i k = (db.tokens.slot k).committed :=
    (Slot.visible_cases i _).resolve_left (h.2 k _)
  rcases hc : (db.tokens.slot k).committed with _ | t
  · rw [AuthTokens.Query.key, hrow, hc] at hans
    cases hans
  · rw [AuthTokens.Query.key, hrow, hc] at hans hput
    simp only [AuthTokens.Query.act] at hans hput
    by_cases hopen : t.purpose = .emailVerify ∧ t.consumedAt = none ∧ begun < t.expiresAt
    · rw [if_pos hopen] at hans hput
      by_cases hhash : t.tokenHash = hash
      · rw [if_pos hhash] at hans
        cases hans
        obtain ⟨hnone, -⟩ | ⟨r, hr', rfl⟩ := hput
        · cases hnone
        · cases hr'
          obtain ⟨code, address, hmailed⟩ := hs.mailed k t hc hopen.1
          refine ⟨_, code, address, congrArg Slot.lock Table.slot_put_self,
            ⟨rfl, hopen.1, hhash, if_pos (Or.inl hhash), hopen.2.2⟩, ?_⟩
          exact hmailed.later ⟨rfl, rfl, rfl, rfl, fun hclosed => absurd hopen.2.1 hclosed⟩
            fun _ he => he
      · rw [if_neg hhash] at hans
        cases hans
    · rw [if_neg hopen] at hans
      cases hans

/-- **The address on file is marked**: it is the one that was seen. -/
theorem address_marked {u₀ : User} {b : Option Unit} (henv : env.Separates)
    (h : (unrecorded env i).holds db) (hseen : (seenUser env i userId (some u₀)).holds db)
    (hmatch : u₀.email.any (fun current => eqIgnoreAsciiCase current address) = true)
    (hr : Query.run env (.users (.markEmailVerified userId begun)) i db = some (b, db')) :
    (recording env i (Proves env userId address begun)).holds db' := by
  obtain ⟨t', hmod, rfl⟩ := Query.run_users hr
  have hmod' : db.users.modify .tx i userId _ = some (b, t') := hmod
  obtain ⟨-, -, ⟨-, rfl⟩ | ⟨r, hput, rfl⟩⟩ := Table.modify_cases hmod'
  · exact recording_of_unrecorded h
  · refine recording_put h ?_
    obtain ⟨u, u', hrow, hu⟩ := Table.updating_cases hput
    obtain ⟨u₁, hc, hkept⟩ := hseen
    have hrow' : db.users.row i userId = (db.users.slot userId).committed :=
      (Slot.visible_cases i _).resolve_left (h.1 userId _)
    obtain rfl : u = u₁ := Option.some.inj (hrow.symm.trans (hrow'.trans hc))
    split at hu
    · rename_i hnone
      cases hu
      obtain rfl := hkept hnone
      obtain ⟨A, hA, hcase⟩ := (Option.any_eq_true _ _).mp hmatch
      exact ⟨rfl, rfl, A, hA, henv.lower A address hcase⟩
    · cases hu

/-- **A new address is set**: it is the one that was given. -/
theorem address_updated {b : Except AppError User} (h : (unrecorded env i).holds db)
    (hr : Query.run env (.users (.updateEmail userId address begun)) i db = some (b, db')) :
    (recording env i (Proves env userId address begun)).holds db' := by
  obtain ⟨t', hmod, rfl⟩ := Query.run_users hr
  rcases Users.updateEmail_cases hmod with ⟨-, rfl⟩ | ⟨u, -, -, -, rfl⟩
  · exact recording_of_unrecorded h
  · exact recording_put h ⟨rfl, rfl, address, rfl, rfl⟩

/-- The challenge is spent by the commit. -/
theorem spentOn_commit (h : (spending env i k userId hash begun).holds db)
    (hg : AddressStep i db (db.commit i)) :
    (spentOn env i k userId hash begun).holds (db.commit i) := by
  obtain ⟨t, code, address, hk, hspent, hmailed⟩ := h
  refine ⟨t, code, address, ?_, hspent, hmailed.later ?_ (hg.outboxGrown k)⟩
  · exact congrArg Slot.committed (Slot.commit_of_held hk)
  · exact ⟨rfl, rfl, rfl, rfl, fun _ => rfl⟩

/-! ### The confirmation -/

/-- What is known once the code has matched. -/
def redeeming (env : Env) (i : ℕ) (k userId : Uuid) (hash : Digest) (begun : Instant) :
    Assertion (addressContract env) i :=
  (posted env i).and (spending env i k userId hash begun)

/-- A query on the accounts does not disturb the challenge that is being spent. -/
theorem redeeming_users {q : Users.Query β} {b : β} (hs : AddressInv env db)
    (h : (redeeming env i k userId hash begun).holds db)
    (hr : Query.run env (.users q) i db = some (b, db')) :
    AddressInv env db' ∧ AddressStep i db db' ∧ (redeeming env i k userId hash begun).holds db' := by
  have hquiet : (Query.users q).publishes = false := rfl
  obtain ⟨hs', hg⟩ := hs.run hquiet hr
  obtain ⟨t', -, rfl⟩ := Query.run_users hr
  exact ⟨hs', hg, h⟩

/-- What a confirmation that may still fail knows, of its answer. -/
def proving (env : Env) (i : ℕ) (k userId : Uuid) (hash : Digest) (address : Text)
    (begun : Instant) : Except AppError Response → Assertion (addressContract env) i
  | .ok _ => (redeeming env i k userId hash begun).and
      (recording env i (Proves env userId address begun))
  | .error _ => (posted env i).and (recording env i fun _ _ => False)

/-- **What an answer to a confirmation says**: the address is proved with a challenge that
was spent, or nothing is recorded. -/
def proven (env : Env) (i : ℕ) (k userId : Uuid) (hash : Digest) (address : Text) :
    Except AppError Response → Assertion (addressContract env) i
  | .ok _ => .ex fun begun => (onRecord env i (Proves env userId address begun)).and
      (spentOn env i k userId hash begun)
  | .error _ => onRecord env i fun _ _ => False

/-- What a confirmation does once its code has matched. -/
theorem address_recordAddress (henv : env.Separates) :
    Safe (Assertion.onOk (proving env i k userId hash address begun)
        fun _ => recording env i fun _ _ => True)
      (recordAddress userId address begun).run
      ((redeeming env i k userId hash begun).and (unrecorded env i)) := by
  have dropped : ∀ {db : Db}, (recording env i (Proves env userId address begun)).holds db →
      (recording env i fun _ _ => True).holds db := fun h => recording_mono h fun _ _ _ => trivial
  refine Safe.look_andThen (fun user => ((redeeming env i k userId hash begun).and
    (unrecorded env i)).and (seenUser env i userId user)) ?_ fun user => ?_
  · intro db hs h
    refine ⟨h, ?_⟩
    have hrow : db.users.row i userId = (db.users.slot userId).committed :=
      (Slot.visible_cases i _).resolve_left (h.2.1 userId _)
    rcases hu : db.users.row i userId with _ | u
    · trivial
    · exact ⟨u, hrow.symm.trans hu, fun _ => rfl⟩
  · rcases user with _ | u₀
    · exact Safe.ret fun _ _ h => recording_of_unrecorded h.1.2
    · dsimp only
      split
      · rename_i hmatch
        refine Safe.andThen (fun _ => (redeeming env i k userId hash begun).and
          (recording env i (Proves env userId address begun))) ?_ fun _ => ?_
        · refine Safe.read_keep fun hit => ?_
          cases hit
          · exact Safe.ret fun _ _ h => ⟨h.1.1, recording_of_unrecorded h.1.2⟩
          · refine Safe.query_andThen (fun _ => (redeeming env i k userId hash begun).and
              (recording env i (Proves env userId address begun))) ?_
              fun _ => Safe.ret fun _ _ h => h
            intro db b db' hs h _ hr
            rw [authService_run] at hr
            obtain ⟨hs', hg, hred⟩ := redeeming_users hs h.1.1 hr
            exact ⟨hs', hg, hred, address_marked henv h.1.2 h.2 hmatch hr⟩
        · refine Safe.keep_andThen (fun _ => trivial) (fun _ _ _ h => dropped h.2) fun user => ?_
          rcases user with _ | user
          · exact Safe.ret fun _ _ h => dropped h.2
          · exact Safe.ret fun _ _ h => h
      · refine Safe.query_andThen (fun _ => (redeeming env i k userId hash begun).and
          (recording env i (Proves env userId address begun))) ?_ fun written => ?_
        · intro db b db' hs h _ hr
          rw [authService_run] at hr
          obtain ⟨hs', hg, hred⟩ := redeeming_users hs h.1.1 hr
          exact ⟨hs', hg, hred, address_updated h.1.2 hr⟩
        · cases written with
          | error e => exact Safe.ret fun _ _ h => dropped h.2
          | ok user => exact Safe.ret fun _ _ h => h

/-- What the guess at the code leaves known. -/
def guessed (env : Env) (i : ℕ) (k : Uuid) (hash : Digest) (begun : Instant) :
    CodeOutcome → Assertion (addressContract env) i
  | .matched owner _ => (redeeming env i k owner hash begun).and (unrecorded env i)
  | _ => (posted env i).and (unrecorded env i)

theorem address_verifyCode :
    Safe (Assertion.onOk (guessed env i k hash begun) fun _ => recording env i fun _ _ => True)
      (verifyCode .tx k .emailVerify hash maxCodeAttempts begun).run (unstarted env i) := by
  refine Safe.read_keep fun hit => ?_
  cases hit
  · exact Safe.ret fun _ _ h => ⟨posted_of_unstarted h, h.1⟩
  · refine Safe.query_andThen (guessed env i k hash begun) ?_ fun _ => Safe.ret fun _ _ h => h
    intro db outcome db' hs h hC hr
    have hquiet : (Query.tokens .tx (.verifyCode k .emailVerify hash maxCodeAttempts
      begun)).publishes = false := rfl
    obtain ⟨hs', hg, hposted⟩ :=
      keeps_posted hquiet rfl db outcome db' hs (posted_of_unstarted h) hC hr
    rw [authService_run] at hr
    have hun : (unrecorded env i).holds db' := by
      have husers : db'.users = db.users := Query.users_of_spares rfl hr
      show (∀ l v, (db'.users.slot l).lock ≠ some (i, v)) ∧ db'.users.Holds _
      rw [husers]
      exact h.1
    refine ⟨hs', hg, ?_⟩
    cases outcome with
    | matched owner authorisedBy => exact ⟨⟨hposted, address_matched hs h hr⟩, hun⟩
    | wrong => exact ⟨hposted, hun⟩
    | gone => exact ⟨hposted, hun⟩

/-- **A confirmation** says the truth about what it recorded. -/
theorem address_confirmEmail (henv : env.Separates) {email : Text} :
    Safe (proven env i k userId (emailVerifyHash env k (trim code) (trim email)) (trim email))
      (confirmEmail env userId k code email).run (unstarted env i) := by
  refine Safe.andThen (fun result => proven env i k userId
    (emailVerifyHash env k (trim code) (trim email)) (trim email) result) ?_ fun result => ?_
  · refine Safe.look_andThen (fun _ => unstarted env i) (fun _ _ h => h) fun begun => ?_
    refine Safe.transaction (Assertion.onOk (proving env i k userId
      (emailVerifyHash env k (trim code) (trim email)) (trim email) begun)
      fun _ => recording env i fun _ _ => True) ?_ ?_ ?_
    · refine Safe.andThen _ address_verifyCode fun outcome => ?_
      cases outcome with
      | wrong => exact Safe.ret fun _ _ h => ⟨h.1, recording_of_unrecorded h.2⟩
      | gone => exact Safe.ret fun _ _ h => ⟨h.1, recording_of_unrecorded h.2⟩
      | matched owner authorisedBy =>
        dsimp only
        by_cases howner : owner ≠ userId
        · rw [if_pos howner]
          exact Safe.ret fun _ _ h => recording_of_unrecorded h.2
        · rw [if_neg howner]
          obtain rfl : owner = userId := not_not.mp howner
          exact address_recordAddress henv
    · intro result db u db' hs h _ hr
      rw [authService_run] at hr
      cases result with
      | ok response =>
        obtain ⟨hs', hg⟩ := address_commit hs h.1.1 hr
        obtain rfl := Query.run_commit hr
        exact ⟨hs', hg, begun, recorded_commit h.2, spentOn_commit h.1.2 hg⟩
      | error e =>
        obtain ⟨hs', hg⟩ := address_commit hs h.1 hr
        obtain rfl := Query.run_commit hr
        exact ⟨hs', hg, recorded_commit h.2⟩
    · intro e db u db' hs h _ hr
      rw [authService_run] at hr
      have hquiet : (Query.rollback).publishes = false := rfl
      obtain ⟨hs', hg⟩ := hs.run hquiet hr
      obtain rfl := Query.run_rollback hr
      exact ⟨hs', hg, recorded_rollback h⟩
  · cases result <;> exact Safe.ret fun _ _ h => h

end Confirm

/-! ### The request for a code -/

section Request

variable {userId : Uuid} {code target : Text}

/-- **The token of a confirmation has been inserted**, and its message is still to come. -/
def drafted (env : Env) (i : ℕ) (userId : Uuid) (code target : Text) :
    Assertion (addressContract env) i where
  holds db := ∀ k t, (db.tokens.slot k).lock = some (i, some t) →
    (db.tokens.slot k).committed = none → t.purpose = .emailVerify →
    k = i ∧ t.userId = userId ∧ t.tokenHash = emailVerifyHash env i code target ∨
      ∃ code address mail, (db.outbox.slot k).lock = some (i, mail) ∧
        Mailed env k t code address mail
  stable := by
    intro j db db' hne _ _ hg h k t hk hnone hpurpose
    have hk' := (hg.tokens k).lock_of_other hk (Ne.symm hne)
    rw [(hg.tokens k).eq_of_held hk' (Ne.symm hne)] at hnone
    refine (h k t hk' hnone hpurpose).imp_right fun ⟨code, address, mail, hmail, hmailed⟩ => ?_
    refine ⟨code, address, mail, ?_, hmailed⟩
    rw [(hg.outbox k).eq_of_held hmail (Ne.symm hne), hmail]
  tick := fun _ _ h => h

/-- The insert of the token. -/
theorem address_insert {token : AuthToken} {b : Bool} (hs : AddressInv env db)
    (h : (posted env i).holds db) (huser : token.userId = userId)
    (hhash : token.tokenHash = emailVerifyHash env i code target)
    (hr : Query.run env (.tokens .tx (.insert i token)) i db = some (b, db')) :
    AddressInv env db' ∧ AddressStep i db db' ∧ (drafted env i userId code target).holds db' := by
  have hquiet : (Query.tokens .tx (.insert i token)).publishes = false := rfl
  obtain ⟨hs', hg⟩ := hs.run hquiet hr
  refine ⟨hs', hg, ?_⟩
  obtain ⟨t', hmod, rfl⟩ := Query.run_tokens hr
  intro k t hk hnone hpurpose
  rcases Table.lock_modify hmod hk with hk | ⟨rfl, r, hput, hrow⟩
  · rw [Table.committed_modify hmod] at hnone
    exact Or.inr (h k t hk hnone hpurpose)
  · obtain ⟨-, rfl⟩ := Table.inserting_cases hput
    obtain rfl := Option.some.inj hrow
    exact Or.inl ⟨rfl, huser, hhash⟩

/-- The message that follows it. -/
theorem address_enqueue {b : Bool} (hcolon : ':' ∉ code) (hs : AddressInv env db)
    (h : (drafted env i userId code target).holds db)
    (hr : Query.run env (.enqueue i ⟨userId, target, .emailVerify code⟩) i db = some (b, db')) :
    AddressInv env db' ∧ AddressStep i db db' ∧
      (if b = true then posted env i else .any).holds db' := by
  have hquiet : (Query.enqueue i ⟨userId, target, .emailVerify code⟩).publishes = false := rfl
  obtain ⟨hs', hg⟩ := hs.run hquiet hr
  refine ⟨hs', hg, ?_⟩
  obtain ⟨t', hmod, rfl⟩ := Query.run_enqueue hr
  obtain ⟨-, rfl, hput⟩ := Table.modify_cases hmod
  rcases hrow : db.outbox.row i i with _ | e
  · rw [hrow] at hput
    obtain ⟨hnone, -⟩ | ⟨e, he, rfl⟩ := hput
    · cases hnone
    · cases he
      intro k t hk hnone hpurpose
      by_cases hki : k = i
      · subst hki
        rcases h k t hk hnone hpurpose with ⟨-, huser, hhash⟩ | ⟨code', address, mail, hmail, hsent⟩
        · refine ⟨code, target, _, congrArg Slot.lock Table.slot_put_self, hcolon, hhash, ?_⟩
          rw [huser]
        · -- there is no message under this identifier yet
          have hvis : db.outbox.row k k = mail := Slot.visible_of_held hmail
          exact nomatch hrow.symm.trans (hvis.trans hsent.2.2)
      · rcases h k t hk hnone hpurpose with ⟨hk', -⟩ | ⟨code', address, mail, hmail, hsent⟩
        · exact absurd hk' hki
        · refine ⟨code', address, mail, ?_, hsent⟩
          exact (congrArg Slot.lock (Table.slot_put_of_ne hki)).trans hmail
  · trivial

/-- **A request for a code** publishes its token with its message. -/
theorem address_requestEmailVerification {newEmail : Option Text} :
    Safe (fun _ => .any) (requestEmailVerification env i userId newEmail).run (posted env i) := by
  refine Safe.keep_andThen (fun _ => trivial) (fun _ _ _ _ => trivial) fun begun => ?_
  refine Safe.transaction (Assertion.onOk (fun _ => posted env i) fun _ => .any) ?_ ?_ ?_
  · refine Safe.keep_andThen (fun _ => trivial) (fun _ _ _ _ => trivial) fun user => ?_
    rcases user with _ | user
    · exact Safe.ret fun _ _ _ => trivial
    · dsimp only
      rcases verificationTarget newEmail user with e | target
      · exact Safe.ret fun _ _ _ => trivial
      · dsimp only
        refine Safe.andThen (fun _ => drafted env i userId (generateCode env i) target) ?_
          fun _ => ?_
        · refine Safe.keep_andThen (fun _ => trivial) (fun _ _ _ _ => trivial) fun opened => ?_
          refine Safe.keep_andThen (Action.each_ofProg (Prog.each_countEach fun k =>
            ⟨keeps_posted rfl rfl, fun _ => trivial⟩)) (fun _ _ _ _ => trivial) fun _ => ?_
          refine Safe.query_andThen (fun _ => drafted env i userId (generateCode env i) target) ?_
            fun inserted => ?_
          · intro db b db' hs h _ hr
            rw [authService_run] at hr
            exact address_insert hs h rfl rfl hr
          · cases inserted
            · exact Safe.ret fun _ _ _ => trivial
            · exact Safe.ret fun _ _ h => h
        · refine Safe.andThen (fun _ => posted env i) ?_ fun _ => Safe.ret fun _ _ h => h
          refine Safe.query_andThen (fun inserted => if inserted = true then posted env i else .any)
            ?_ fun inserted => ?_
          · intro db b db' hs h _ hr
            exact address_enqueue (colon_not_mem_generateCode env i) hs h hr
          · cases inserted
            · exact Safe.ret fun _ _ _ => trivial
            · exact Safe.ret fun _ _ h => h
  · intro r db u db' hs h _ hr
    obtain ⟨hs', hg⟩ := address_commit hs h hr
    exact ⟨hs', hg, trivial⟩
  · intro e db u db' hs h _ hr
    have hquiet : (Query.rollback).publishes = false := rfl
    obtain ⟨hs', hg⟩ := hs.run hquiet hr
    exact ⟨hs', hg, trivial⟩

end Request

/-! ### All requests -/

/-- A request that asks for no confirmation. -/
theorem address_bystander {p : Serving Response}
    (h : p.run.Each fun q => (addressContract env).Keeps (posted env i) q) :
    Safe (fun _ => .any) p.run (unstarted env i) :=
  (Safe.keep h).any_post.mono fun _ _ hb => posted_of_unstarted hb

/-- The queries that issue a token of another purpose. -/
theorem issues_posted {userId : Uuid} {purpose : Purpose} {authorisedBy : Option ℕ}
    (hpurpose : purpose ≠ .emailVerify) :
    Issues (fun q => (addressContract env).Keeps (posted env i) q) i userId purpose authorisedBy :=
  ⟨fun _ _ => keeps_posted rfl rfl, fun _ _ => keeps_posted rfl (decide_eq_false hpurpose),
    fun _ => keeps_posted rfl rfl⟩

/-- What an answer says: confirmations are accounted for. -/
def answeredAddress (env : Env) (i : ℕ) :
    Request → Except AppError Response → Assertion (addressContract env) i
  | .confirmEmail userId k code email =>
    proven env i k userId (emailVerifyHash env k (trim code) (trim email)) (trim email)
  | _ => fun _ => .any

/-- Every request is safe. -/
theorem address_serve (henv : env.Separates) (i : ℕ) (r : Request) :
    Safe (answeredAddress env i r) ((authService env).program i r) (unstarted env i) := by
  cases r with
  | confirmEmail userId challengeId code email => exact address_confirmEmail henv
  | requestEmailVerification userId newEmail =>
    exact address_requestEmailVerification.mono fun _ _ h => posted_of_unstarted h
  | login email password device =>
    exact address_bystander (each_login keeps_posted_commit (keeps_posted rfl rfl)
      (fun _ _ => keeps_posted rfl rfl) (fun _ _ => keeps_posted rfl rfl)
      (fun _ => keeps_posted rfl rfl) (fun _ _ => keeps_posted rfl rfl)
      (fun _ _ => keeps_posted rfl rfl) (fun _ _ => issues_posted nofun)
      fun _ _ => keeps_posted rfl rfl)
  | verifyLoginCode challengeId code =>
    exact address_bystander (each_verifyLoginCode keeps_posted_commit (keeps_posted rfl rfl)
      (fun _ => keeps_posted rfl rfl) (fun _ _ => keeps_posted rfl rfl)
      fun _ _ => keeps_posted rfl rfl)
  | changePassword userId sessionId current new =>
    exact address_bystander (each_changePassword keeps_posted_commit (keeps_posted rfl rfl)
      (keeps_posted rfl rfl) (fun _ => keeps_posted rfl rfl) (fun _ _ => keeps_posted rfl rfl)
      (fun _ => keeps_posted rfl rfl) fun _ _ => keeps_posted rfl rfl)
  | confirmPasswordReset token new =>
    exact address_bystander (each_confirmPasswordReset keeps_posted_commit (keeps_posted rfl rfl)
      (fun _ _ => keeps_posted rfl rfl) (fun _ => keeps_posted rfl rfl)
      (fun _ _ _ => keeps_posted rfl rfl) fun _ _ => keeps_posted rfl rfl)
  | resendLoginCode challengeId =>
    exact address_bystander (each_resendLoginCode keeps_posted_commit (keeps_posted rfl rfl)
      fun _ _ => issues_posted nofun)
  | requestPasswordReset email =>
    exact address_bystander (each_requestPasswordReset keeps_posted_commit (keeps_posted rfl rfl)
      fun _ => issues_posted nofun)
  | logout sessionId =>
    exact address_bystander (each_logout keeps_posted_commit (keeps_posted rfl rfl)
      fun _ => keeps_posted rfl rfl)
  | logoutAll userId =>
    exact address_bystander (each_logoutAll keeps_posted_commit (keeps_posted rfl rfl)
      fun _ _ => keeps_posted rfl rfl)

/-! ### The result -/

/-- Nothing is going on, the tokens of confirmations come with their messages, and no proof
is recorded as a request's. -/
structure Unproved (env : Env) (db : Db) : Prop where
  /-- No token is held. -/
  tokens : ∀ k, (db.tokens.slot k).lock = none
  /-- No message is. -/
  outbox : ∀ k, (db.outbox.slot k).lock = none
  /-- No account is. -/
  users : ∀ l, (db.users.slot l).lock = none
  /-- Tokens come with their messages. -/
  mailed : ∀ k t, (db.tokens.slot k).committed = some t → t.purpose = .emailVerify →
    ∃ code address, Mailed env k t code address (db.outbox.slot k).committed
  /-- No proof is a request's. -/
  proved : ∀ l u, (db.users.slot l).committed = some u → u.provedBy = none

namespace Unproved

variable {db : Db}

theorem addressInv (h : Unproved env db) : AddressInv env db := by
  refine ⟨h.mailed, fun k j v hk => ?_, fun k j v hk => ?_, fun k j v hk => ?_⟩
  · rw [h.tokens k] at hk
    cases hk
  · rw [h.outbox k] at hk
    cases hk
  · rw [h.users k] at hk
    cases hk

theorem unstarted (h : Unproved env db) (i : ℕ) : (unstarted env i).holds db := by
  refine ⟨⟨fun l v hl => ?_, fun l u hu => ?_⟩, fun k v hk => ?_⟩
  · rw [h.users l] at hl
    cases hl
  · rcases hu with hc | ⟨j, hl⟩
    · rw [h.proved l u hc]
      nofun
    · rw [h.users l] at hl
      cases hl
  · rw [h.tokens k] at hk
    cases hk

end Unproved

/-- **What a code that matched was sent for.** -/
theorem sentTo_of_match (henv : env.Separates) {k : Uuid} {t : AuthToken}
    {sentCode sentTo code address : Text} {mail : Option Email}
    (h : Mailed env k t sentCode sentTo mail)
    (hhash : t.tokenHash = emailVerifyHash env k code address) :
    env.toLowercase address = env.toLowercase sentTo ↔
      ¬ CutLater env sentCode sentTo code address := by
  constructor
  · exact fun heq hcut => hcut.ne heq.symm
  · intro hnot
    have hpre := henv.peppered _ _ _ (h.2.1.symm.trans hhash)
    rcases ((emailVerifyPreimage_eq_iff henv).mp hpre).2 with ⟨-, hsame⟩ | hcut | ⟨p, rfl, -⟩
    · exact hsame
    · exact absurd hcut hnot
    · exact absurd (List.mem_append_right code List.mem_cons_self) h.1

/-- **The address that a confirmation proves**:

* what is digested of two confirmations is the same only if they are, or if one is the
  other cut at another colon;
* an account that a confirmation has written is the one that asked, and it was written when
  a challenge of the account was spent that had not expired, whose code had been sent to an
  address; and that is the address on the account, up to letter case, exactly when the code
  that came back was not the code that was sent, cut at another colon. -/
theorem address_bound (henv : env.Separates) {db₀ : Db} (h₀ : Unproved env db₀)
    {c : Config ℕ Db Request (Except AppError Response) Query}
    (h : Reachable (authService env) anyQuery (.initial db₀) c) :
    (∀ k k' code address code' address',
      emailVerifyPreimage env k code address = emailVerifyPreimage env k' code' address' ↔
        k' = k ∧ (code' = code ∧ env.toLowercase address' = env.toLowercase address ∨
          CutLater env code address code' address' ∨
            CutLater env code' address' code address)) ∧
    ∀ i userId k code email answer l u,
      c.Served i (.confirmEmail userId k code email) answer →
      (c.db.users.slot l).committed = some u → u.provedBy = some i →
      l = userId ∧ ∃ t sentCode sentTo begun A, (c.db.tokens.slot k).committed = some t ∧
        t.userId = userId ∧ t.purpose = .emailVerify ∧ t.consumedAt = some begun ∧
        begun < t.expiresAt ∧
        (c.db.outbox.slot k).committed = some ⟨userId, sentTo, .emailVerify sentCode⟩ ∧
        u.emailVerifiedAt = some begun ∧ u.email = some A ∧
        (env.toLowercase A = env.toLowercase sentTo ↔
          ¬ CutLater env sentCode sentTo (trim code) (trim email)) := by
  refine ⟨fun k k' code address code' address' => emailVerifyPreimage_eq_iff henv, ?_⟩
  obtain ⟨hs, ht⟩ := (addressContract env).of_reachable (address_serve henv) h₀.addressInv
    h₀.unstarted h
  intro i userId k code email answer l u hserved hu hproved
  have hanswer := ht.served hs hserved
  cases answer with
  | error e => exact (hanswer l u (Or.inl hu) hproved).elim
  | ok response =>
    obtain ⟨begun, hrecord, t, sentCode, sentTo, hk, hspent, hmailed⟩ := hanswer
    obtain ⟨rfl, hverified, A, hA, hlower⟩ := hrecord l u (Or.inl hu) hproved
    refine ⟨rfl, t, sentCode, sentTo, begun, A, hk, hspent.userId, hspent.purpose,
      hspent.consumedAt, hspent.alive, ?_, hverified, hA, ?_⟩
    · rw [hmailed.2.2, hspent.userId]
    · rw [hlower]
      exact sentTo_of_match henv hmailed hspent.tokenHash

/-! ### Two runs -/

theorem Env.plain_separates : Env.plain.Separates where
  peppered := fun domain v w h => (List.cons.inj (List.append_cancel_left h)).2
  formatUuid := by
    intro k l h
    have hlen := congrArg List.length h
    simpa [Env.plain] using hlen
  colon := by
    intro k hk
    have hu := List.eq_of_mem_replicate hk
    exact absurd hu (by decide)
  lower := fun s t h => of_decide_eq_true h

theorem oneAccount_unproved : Unproved .plain oneAccount where
  tokens := fun _ => rfl
  outbox := fun _ => rfl
  users := by
    intro l
    rcases eq_or_ne l 0 with rfl | hne
    · rfl
    · rw [oneAccount, Table.slot_put_of_ne hne]
      rfl
  mailed := nofun
  proved := by
    intro l u hu
    rcases eq_or_ne l 0 with rfl | hne
    · rw [oneAccount, Table.slot_put_self] at hu
      obtain rfl := Option.some.inj hu
      rfl
    · rw [oneAccount, Table.slot_put_of_ne hne] at hu
      cases hu

/-- A code for a new address comes back, with an address. -/
def confirmed (newEmail code email : String) : List (Event ℕ Request) :=
  .arrive 1 (.requestEmailVerification 0 (some newEmail.toList)) :: List.replicate 6 (.run 1) ++
    .arrive 2 (.confirmEmail 0 1 code.toList email.toList) :: List.replicate 6 (.run 2)

/-- The account, as a confirmation left it. -/
def provedUser (email : String) : User :=
  { firstUser with email := some email.toList, emailVerifiedAt := some 0, provedBy := some 2 }

theorem address_bound_confirmed :
    ∃ c, Reachable (authService .plain) anyQuery (.initial oneAccount) c ∧
      (c.db.users.slot 0).committed = some (provedUser "new@b.c") ∧
      ∃ sentTo sentCode, (c.db.outbox.slot 1).committed = some ⟨0, sentTo, .emailVerify sentCode⟩ ∧
        (Env.plain.toLowercase "new@b.c".toList = Env.plain.toLowercase sentTo ↔
          ¬ CutLater .plain sentCode sentTo (trim "000001".toList) (trim "new@b.c".toList)) := by
  obtain ⟨c, hc, hP⟩ := exists_of_exec (authService .plain)
    (confirmed "new@b.c" "000001" "new@b.c") (.initial oneAccount)
    (fun c => decide ((c.db.users.slot 0).committed = some (provedUser "new@b.c")) &&
      decide (c.Served 2 (.confirmEmail 0 1 "000001".toList "new@b.c".toList)
        (.ok (.account (provedUser "new@b.c"))))) (by decide +kernel)
  rw [Bool.and_eq_true, decide_eq_true_eq, decide_eq_true_eq] at hP
  obtain ⟨-, t, sentCode, sentTo, begun, A, -, -, -, -, -, hmail, -, hA, hlower⟩ :=
    (address_bound Env.plain_separates oneAccount_unproved hc).2 2 0 1 _ _ _ 0 _ hP.2 hP.1 rfl
  obtain rfl := Option.some.inj hA
  exact ⟨c, hc, hP.1, sentTo, sentCode, hmail, hlower⟩

/-- **An address is proved that nothing was sent to**: the code goes to `x:y@z.w`, and comes
back with the first letters of the address, for the rest of it. -/
theorem address_cut :
    emailVerifyPreimage .plain 1 "000001".toList "x:y@z.w".toList =
      emailVerifyPreimage .plain 1 "000001:x".toList "y@z.w".toList ∧
    looksLikeEmail "x:y@z.w".toList = true ∧
    ∃ c, Reachable (authService .plain) anyQuery (.initial oneAccount) c ∧
      c.Served 2 (.confirmEmail 0 1 "000001:x".toList "y@z.w".toList)
        (.ok (.account (provedUser "y@z.w"))) ∧
      (c.db.users.slot 0).committed = some (provedUser "y@z.w") ∧
      ∀ k e, (c.db.outbox.slot k).committed = some e →
        Env.plain.toLowercase e.recipient ≠ Env.plain.toLowercase "y@z.w".toList := by
  refine ⟨by decide, by decide, ?_⟩
  obtain ⟨c, hc, hP⟩ := exists_of_exec (authService .plain)
    (confirmed "x:y@z.w" "000001:x" "y@z.w") (.initial oneAccount)
    (fun c => decide (c.Served 2 (.confirmEmail 0 1 "000001:x".toList "y@z.w".toList)
        (.ok (.account (provedUser "y@z.w")))) &&
      decide ((c.db.users.slot 0).committed = some (provedUser "y@z.w")) &&
      c.db.outbox.keys.all fun k => (c.db.outbox.slot k).committed.all fun e =>
        Env.plain.toLowercase e.recipient ≠ Env.plain.toLowercase "y@z.w".toList)
    (by decide +kernel)
  simp only [Bool.and_eq_true, decide_eq_true_eq, List.all_eq_true] at hP
  refine ⟨c, hc, hP.1.1, hP.1.2, fun k e he => ?_⟩
  have hmem : k ∈ c.db.outbox.keys := by
    by_contra hk
    rw [c.db.outbox.empty_of_not_mem k hk] at he
    cases he
  have hpass := hP.2 k hmem
  rw [he] at hpass
  exact of_decide_eq_true hpass

end Marketplace
