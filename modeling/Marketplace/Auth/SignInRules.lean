import Marketplace.Auth.SignIn

/-!
# Rules for the programs of the sign-ins

What a request of the service knows about credentials and sessions, and which of its
queries keep it. Outside a transaction a request holds nothing
(`Marketplace.outside`); inside one it may hold credentials, and knows about the
published sessions of their accounts (`Marketplace.inside`), which is what a commit
needs (`Marketplace.safe_inTransaction`).
-/

namespace Marketplace

open ReadCommitted

variable {env : Env} {i : ℕ} {db db' : Db} {α β : Type}

/-! ### Assertions -/

section Assertions

variable (hsalt : ∀ i j p q, env.hash i p = env.hash j q → i = j) (i : ℕ)

/-- The request has stored no hash so far. -/
def fresh : Assertion (signInContract hsalt) i where
  holds := UnwrittenIn i
  stable := fun hne _ _ hg h => hg.history.unwritten _ (Ne.symm hne) h
  tick := fun _ _ h => h

/-- The request has no transaction open, as far as credentials and sessions go. -/
def outside : Assertion (signInContract hsalt) i where
  holds db := HoldsNone i db ∧ NoPending i db
  stable := fun hne _ _ hg h => ⟨h.1.stable hne hg, h.2.stable hne hg⟩
  tick := fun _ _ h => h

/-- The request is in a transaction that has yet to publish a session. -/
def inside (pend : Uuid → Uuid → Prop) : Assertion (signInContract hsalt) i where
  holds db := Cleared i pend db ∧ NoPending i db
  stable := fun hne _ _ hg h => ⟨h.1.stable hne hg, h.2.stable hne hg⟩
  tick := fun _ _ h => h

/-- The transaction may commit. -/
def committable : Assertion (signInContract hsalt) i where
  holds db := Cleared i (fun _ _ => False) db ∧ Ready i db
  stable := fun hne _ _ hg h => ⟨h.1.stable hne hg, h.2.stable hne hg⟩
  tick := fun _ _ h => h

/-- The request holds the credential, with a version of this generation. -/
def holding (userId : Uuid) (g : ℕ) : Assertion (signInContract hsalt) i where
  holds := Holding i userId g
  stable := fun hne _ _ hg h => h.stable hne hg
  tick := fun _ _ h => h

/-- The account once had this hash stored, under this generation of its password. -/
def seen (userId : Uuid) (h : Text) (g : ℕ) : Assertion (signInContract hsalt) i where
  holds db := ∃ c es, (db.credentials.slot userId).committed = some c ∧ es <:+ c.trail ∧
    storedHash es = some h ∧ generation es = g
  stable := by
    rintro j db db' - - - hg ⟨c, es, hc, hes, hh, hgen⟩
    obtain ⟨c', hc', hs⟩ := hg.history.grown userId c hc
    exact ⟨c', es, hc', hes.trans hs, hh, hgen⟩
  tick := fun _ _ h => h

end Assertions

/-! ### Queries -/

section Queries

variable (hsalt : ∀ i j p q, env.hash i p = env.hash j q → i = j)
  {P : Assertion (signInContract hsalt) i} {q : Query β}

include hsalt in
theorem signIn_quiet (hq : q.quiet = true) {b : β} (hs : SignInInv env db)
    (hr : Query.run env q i db = some (b, db')) : SignInInv env db' ∧ SignInStep i db db' := by
  have h := Query.quiet_run hq hr
  refine hs.quiet (hs.history.of_newHash hsalt (Query.newHash_of_quiet hq) hr)
    (Query.effects hr).sessions.moves h.sessions fun u c hc => ?_
  exact ⟨c, (h.credentials u).trans hc, rfl⟩

/-- **A quiet query keeps what is known inside a transaction.** -/
theorem keeps_inside {pend : Uuid → Uuid → Prop} (hq : q.quiet = true) :
    (signInContract hsalt).Keeps (inside hsalt i pend) q := by
  intro db b db' hs h _ hr
  obtain ⟨hs', hg⟩ := signIn_quiet hsalt hq hs hr
  have hquiet := Query.quiet_run hq hr
  exact ⟨hs', hg, hquiet.cleared hs.current h.1, hquiet.noPending h.2⟩

/-- The queries that leave the credentials alone and insert no session keep what is known
outside a transaction. -/
theorem keeps_outside (hq : q.quiet = true) (hspare : q.sparesCredentials = true) :
    (signInContract hsalt).Keeps (outside hsalt i) q := by
  intro db b db' hs h _ hr
  obtain ⟨hs', hg⟩ := signIn_quiet hsalt hq hs hr
  refine ⟨hs', hg, fun u v hu => ?_, (Query.quiet_run hq hr).noPending h.2⟩
  rw [Query.credentials_of_spares hspare hr] at hu
  exact h.1 u v hu

/-- **A statement on a credential that is issued on its own**, by a request that holds
none, keeps the generation of the password. -/
theorem signIn_auto {q : Passwords.Query β} (hq : q.replaces = false) {b : β}
    (hs : SignInInv env db) (hist : HistoryInv env db' ∧ HistoryStep i db db')
    (h : HoldsNone i db ∧ NoPending i db)
    (hr : Query.run env (.credentials .auto q) i db = some (b, db')) :
    SignInInv env db' ∧ SignInStep i db db' ∧ HoldsNone i db' ∧ NoPending i db' := by
  obtain ⟨t, ht, rfl⟩ := Query.run_credentials hr
  obtain ⟨hfree, -, ⟨-, rfl⟩ | ⟨c', hc', rfl⟩⟩ := Table.modify_cases ht
  · obtain ⟨hs', hg⟩ := hs.quiet hist (Table.Moves.refl i _) (fun _ => rfl) fun u c hc => ⟨c, hc, rfl⟩
    exact ⟨hs', hg, h⟩
  · -- nobody holds the row, so the version found is the published one
    obtain ⟨c, hrow, hgen⟩ := Passwords.generation_of_query hq hc'
    have hcom : (db.credentials.slot q.key).committed = some c := by
      rcases Slot.visible_cases i (db.credentials.slot q.key) with hi | hcom
      · exact absurd hi (h.1 _ _)
      · exact hcom.symm.trans hrow
    obtain ⟨hs', hg⟩ := hs.quiet hist (Table.Moves.refl i _) (fun _ => rfl) fun u d hd => by
      rcases eq_or_ne u q.key with rfl | hne
      · rw [hcom] at hd
        cases hd
        exact ⟨c', congrArg Slot.committed Table.slot_put_self, hgen⟩
      · exact ⟨d, (congrArg Slot.committed (Table.slot_put_of_ne hne)).trans hd, rfl⟩
    refine ⟨hs', hg, fun u v hu => ?_, h.2⟩
    rcases eq_or_ne u q.key with rfl | hne
    · rw [Table.slot_put_self] at hu
      cases hu
    · rw [Table.slot_put_of_ne hne] at hu
      exact h.1 u v hu

theorem keeps_auto {q : Passwords.Query β} (hq : q.replaces = false) (hw : q.newHash = none) :
    (signInContract hsalt).Keeps (outside hsalt i) (.credentials .auto q) := by
  intro db b db' hs h _ hr
  have hw' : (Query.credentials .auto q).newHash = none := hw
  exact signIn_auto hq hs (hs.history.of_newHash hsalt hw' hr) h hr

/-- What is kept by a query that stores no hash. -/
theorem keeps_and_fresh (h : (signInContract hsalt).Keeps P q) (hq : q.newHash = none) :
    (signInContract hsalt).Keeps (P.and (fresh hsalt i)) q := by
  intro db b db' hs hP hC hr
  obtain ⟨hs', hg, hP'⟩ := h db b db' hs hP.1 hC hr
  refine ⟨hs', hg, hP', (Query.effects hr).credentials.holds hP.2 fun k c hA => ?_⟩
  exact Unwritten.act hA (Or.inr hq) fun c hc => hP.2.row hc

/-- What was once stored stays in the history. -/
theorem keeps_and_seen {userId : Uuid} {h : Text} {g : ℕ} (hk : (signInContract hsalt).Keeps P q) :
    (signInContract hsalt).Keeps (P.and (seen hsalt i userId h g)) q := by
  intro db b db' hs hP hC hr
  obtain ⟨hs', hg, hP'⟩ := hk db b db' hs hP.1 hC hr
  obtain ⟨c, es, hc, hes, hh, hgen⟩ := hP.2
  obtain ⟨c', hc', hsuff⟩ := hg.history.grown userId c hc
  exact ⟨hs', hg, hP', c', es, hc', hes.trans hsuff, hh, hgen⟩

/-- A credential that is held stays held. -/
theorem keeps_and_holding {userId : Uuid} {g : ℕ} (hk : (signInContract hsalt).Keeps P q)
    (hq : q.quiet = true) :
    (signInContract hsalt).Keeps (P.and (holding hsalt i userId g)) q := by
  intro db b db' hs hP hC hr
  obtain ⟨hs', hg, hP'⟩ := hk db b db' hs hP.1 hC hr
  exact ⟨hs', hg, hP', (Query.quiet_run hq hr).holding hP.2⟩

end Queries

/-! ### Transactions -/

section Transactions

variable (hsalt : ∀ i j p q, env.hash i p = env.hash j q → i = j)

include hsalt in
/-- **The commit**: a request that may commit holds nothing afterwards. -/
theorem signIn_commit {u : Unit} (hs : SignInInv env db) (hclear : Cleared i (fun _ _ => False) db)
    (hready : Ready i db) (hC : codeSignInsCurrent i .commit db)
    (hr : Query.run env .commit i db = some (u, db')) :
    SignInInv env db' ∧ SignInStep i db db' ∧ HoldsNone i db' ∧ NoPending i db' := by
  have hq : Query.commit.newHash = none := rfl
  have hist := hs.history.of_newHash hsalt hq hr
  obtain rfl := Query.run_commit hr
  obtain ⟨hs', hg⟩ := hs.commit hist hclear hready hC
  exact ⟨hs', hg, .commit, .commit⟩

include hsalt in
theorem signIn_rollback {u : Unit} (hs : SignInInv env db)
    (hr : Query.run env .rollback i db = some (u, db')) :
    SignInInv env db' ∧ SignInStep i db db' ∧ HoldsNone i db' ∧ NoPending i db' := by
  cases hr
  obtain ⟨hs', hg⟩ := (signInContract hsalt).rollback hs trivial rfl
  exact ⟨hs', hg, .rollback, .rollback⟩

theorem keeps_commit :
    (signInContract hsalt).Keeps (inside hsalt i fun _ _ => False) .commit := by
  intro db u db' hs h hC hr
  obtain ⟨hs', hg, hnone, hpend⟩ := signIn_commit hsalt hs h.1 h.2.ready hC hr
  exact ⟨hs', hg, hnone.cleared _, hpend⟩

theorem keeps_rollback {pend : Uuid → Uuid → Prop} :
    (signInContract hsalt).Keeps (inside hsalt i pend) .rollback := by
  intro db u db' hs h hC hr
  obtain ⟨hs', hg, hnone, hpend⟩ := signIn_rollback hsalt hs hr
  exact ⟨hs', hg, hnone.cleared _, hpend⟩

/-- **The rule for the transactions of the service**: when its body succeeds, the
transaction may commit. -/
theorem safe_inTransaction {body : Instant → Serving α} {P R : Assertion (signInContract hsalt) i}
    (hR : ∀ db, R.holds db → R.holds (db.commit i))
    (hb : ∀ now, Safe (Assertion.onOk (fun _ => (committable hsalt i).and R) fun _ => .any)
      (body now).run P) :
    Safe (Assertion.onOk (fun _ => (outside hsalt i).and R) fun _ => .any)
      (inTransaction body).run P := by
  refine Safe.keep_andThen (fun _ => trivial) (fun _ _ _ _ => trivial) fun begun => ?_
  refine Safe.transaction _ (hb begun) ?_ ?_
  · intro a db u db' hs hmid hC hr
    obtain ⟨hs', hg, hout⟩ := signIn_commit hsalt hs hmid.1.1 hmid.1.2 hC hr
    cases hr
    exact ⟨hs', hg, hout, hR db hmid.2⟩
  · intro e db u db' hs _ _ hr
    obtain ⟨hs', hg, -⟩ := signIn_rollback hsalt hs hr
    exact ⟨hs', hg, trivial⟩

theorem fresh_commit (h : (fresh hsalt i).holds db) : (fresh hsalt i).holds (db.commit i) :=
  Table.Effect.holds (Table.Effect.commit (A := fun _ => Passwords.Act i none) db.credentials) h
    fun _ _ hA => Unwritten.act hA (Or.inr rfl) fun _ hc => h.row hc

end Transactions

end Marketplace
