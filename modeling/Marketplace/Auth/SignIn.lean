import Marketplace.Auth.PasswordHistory

/-!
# Sessions and the password that authorised them

A session is *current* when the password whose verification authorised its sign-in is
still the password of the account. The contract of this file keeps every published
session that is not revoked current (`Marketplace.SignInInv`), through what the
source does for it: a sign-in with the password inserts its session while it holds
the credential row, and a replacement of the password revokes every session of the
account before it publishes.

Sign-ins by code do neither, and so the contract has a proviso about them
(`Marketplace.codeSignInsCurrent`): when one publishes its session, the password
that authorised its challenge is still the stored one, and nobody is about to
publish another.
-/

namespace Marketplace

open ReadCommitted

/-- The session is not revoked, and its sign-in was authorised by the password of
generation `g`. -/
def Session.Authorised (s : Session) (g : ℕ) : Prop := s.revoked = none ∧ s.authorisedBy = some g

variable {env : Env} {i j : ℕ} {db db' : Db}

/-! ### The invariant and the guarantee -/

/-- **Every published session is current.** -/
def SessionsCurrent (db : Db) : Prop :=
  ∀ k s g, (db.sessions.slot k).committed = some s → s.Authorised g →
    ∃ c, (db.credentials.slot s.userId).committed = some c ∧ c.generation = g

/-- The invariant: sessions are current, and histories linear. -/
structure SignInInv (env : Env) (db : Db) : Prop where
  /-- Histories are linear. -/
  history : HistoryInv env db
  /-- Sessions are current. -/
  current : SessionsCurrent db

/-- **What a query may do**: a session it publishes is that of the password of every
other request that holds the credential. -/
structure SignInStep (i : ℕ) (db db' : Db) : Prop where
  /-- Histories only grow. -/
  history : HistoryStep i db db'
  /-- Sessions held by others do not move. -/
  moves : db.sessions.Moves i db'.sessions
  /-- No session is published behind the back of a replacement. -/
  published : ∀ k s g, (db'.sessions.slot k).committed = some s → s.Authorised g →
    (db.sessions.slot k).committed = some s ∨ ∀ j c, j ≠ i →
      (db.credentials.slot s.userId).lock = some (j, some c) → c.generation = g

/-- **A query that publishes no session and no new password** keeps sessions current. -/
theorem SignInInv.quiet (h : SignInInv env db)
    (hist : HistoryInv env db' ∧ HistoryStep i db db')
    (hmoves : db.sessions.Moves i db'.sessions)
    (hs : ∀ k, (db'.sessions.slot k).committed = (db.sessions.slot k).committed)
    (hc : ∀ u c, (db.credentials.slot u).committed = some c →
      ∃ c', (db'.credentials.slot u).committed = some c' ∧ c'.generation = c.generation) :
    SignInInv env db' ∧ SignInStep i db db' := by
  refine ⟨⟨hist.1, fun k s g hk hg => ?_⟩, ⟨hist.2, hmoves, fun k s g hk _ => ?_⟩⟩
  · rw [hs k] at hk
    obtain ⟨c, hcom, hgen⟩ := h.current k s g hk hg
    obtain ⟨c', hcom', hgen'⟩ := hc _ c hcom
    exact ⟨c', hcom', hgen'.trans hgen⟩
  · rw [hs k] at hk
    exact Or.inl hk

/-- **The proviso on sign-ins by code**: when a session is published by a request that
does not hold the credential row, the password that authorised it is the published
one, and no other request holds a version of the row with another. -/
def codeSignInsCurrent : Proviso ℕ Db Query := fun i q db =>
  match q with
  | .commit => ∀ k s g, (db.sessions.slot k).lock = some (i, some s) → s.Authorised g →
      (∀ v, (db.credentials.slot s.userId).lock ≠ some (i, v)) →
      (∃ c, (db.credentials.slot s.userId).committed = some c ∧ c.generation = g) ∧
        ∀ j c, (db.credentials.slot s.userId).lock = some (j, some c) → c.generation = g
  | _ => True

/-- **The contract** of the sign-ins. -/
def signInContract (hsalt : ∀ i j p q, env.hash i p = env.hash j q → i = j) :
    Contract (authService env) codeSignInsCurrent where
  inv := SignInInv env
  guar := SignInStep
  inv_tick := fun _ h => ⟨⟨h.history.holds, h.history.ordered⟩, h.current⟩
  rollback := by
    intro i db db' h _ hr
    have hq : Query.rollback.newHash = none := rfl
    have hist := h.history.of_newHash hsalt hq hr
    cases hr
    refine h.quiet hist (Table.moves_rollback i _) (fun k => Slot.rollback_committed) ?_
    intro u c hc
    exact ⟨c, Slot.rollback_committed.trans hc, rfl⟩

/-! ### What a request knows -/

/-- The request holds no credential. -/
def HoldsNone (i : ℕ) (db : Db) : Prop := ∀ u v, (db.credentials.slot u).lock ≠ some (i, v)

/-- The request is about to publish no session. -/
def NoPending (i : ℕ) (db : Db) : Prop :=
  ∀ k s g, (db.sessions.slot k).lock = some (i, some s) → ¬ s.Authorised g

/-- **Of the accounts whose credential the request holds**, every published session is
that of the password it is about to publish, or is being revoked by it, or is one of
those it has yet to look at. -/
def Cleared (i : ℕ) (pend : Uuid → Uuid → Prop) (db : Db) : Prop :=
  ∀ u c, (db.credentials.slot u).lock = some (i, some c) →
    ∀ k s g, (db.sessions.slot k).committed = some s → s.Authorised g → s.userId = u →
      c.generation = g ∨ (∃ v, (db.sessions.slot k).lock = some (i, v)) ∨ pend u k

/-- **A session the request is about to publish** is that of the password it is about to
publish, if it holds the credential. -/
def Ready (i : ℕ) (db : Db) : Prop :=
  ∀ k s g, (db.sessions.slot k).lock = some (i, some s) → s.Authorised g →
    (∃ c, (db.credentials.slot s.userId).lock = some (i, some c) ∧ c.generation = g) ∨
      ∀ v, (db.credentials.slot s.userId).lock ≠ some (i, v)

/-- The request holds the credential, with a version of this generation. -/
def Holding (i : ℕ) (userId : Uuid) (g : ℕ) (db : Db) : Prop :=
  ∃ c, (db.credentials.slot userId).lock = some (i, some c) ∧ c.generation = g

theorem NoPending.ready (h : NoPending i db) : Ready i db :=
  fun k s g hk hg => absurd hg (h k s g hk)

theorem HoldsNone.cleared (h : HoldsNone i db) (pend : Uuid → Uuid → Prop) : Cleared i pend db :=
  fun u c hu => absurd hu (h u (some c))

section Stable

variable {pend : Uuid → Uuid → Prop} {userId : Uuid} {g : ℕ}

theorem HoldsNone.stable (hne : j ≠ i) (hg : SignInStep j db db') (h : HoldsNone i db) :
    HoldsNone i db' :=
  fun u v hu => h u v ((hg.history.moves u).lock_of_other hu (Ne.symm hne))

theorem NoPending.stable (hne : j ≠ i) (hg : SignInStep j db db') (h : NoPending i db) :
    NoPending i db' :=
  fun k s g hk => h k s g ((hg.moves k).lock_of_other hk (Ne.symm hne))

theorem Holding.stable (hne : j ≠ i) (hg : SignInStep j db db') (h : Holding i userId g db) :
    Holding i userId g db' := by
  obtain ⟨c, hc, hgen⟩ := h
  have hsame := (hg.history.moves userId).eq_of_held hc (Ne.symm hne)
  exact ⟨c, by rw [hsame]; exact hc, hgen⟩

theorem Ready.stable (hne : j ≠ i) (hg : SignInStep j db db') (h : Ready i db) : Ready i db' := by
  intro k s g hk hs
  rcases h k s g ((hg.moves k).lock_of_other hk (Ne.symm hne)) hs with hh | hnone
  · exact Or.inl (Holding.stable hne hg hh)
  · exact Or.inr fun v hv => hnone v ((hg.history.moves _).lock_of_other hv (Ne.symm hne))

/-- A session published by another request does not take the request by surprise: it is
that of the password the request is about to publish. -/
theorem Cleared.stable (hne : j ≠ i) (hg : SignInStep j db db') (h : Cleared i pend db) :
    Cleared i pend db' := by
  intro u c hu k s g hk hs hsu
  have hu' := (hg.history.moves u).lock_of_other hu (Ne.symm hne)
  rcases hg.published k s g hk hs with hold | hnew
  · rcases h u c hu' k s g hold hs hsu with hgen | ⟨v, hv⟩ | hp
    · exact Or.inl hgen
    · have hsame := (hg.moves k).eq_of_held hv (Ne.symm hne)
      exact Or.inr (Or.inl ⟨v, by rw [hsame]; exact hv⟩)
    · exact Or.inr (Or.inr hp)
  · exact Or.inl (hnew i c (Ne.symm hne) (hsu ▸ hu'))

end Stable

/-! ### The queries that publish nothing -/

/-- **What a query of an open transaction does to credentials and sessions** when it
neither replaces a password nor inserts a session. -/
structure Quiet (i : ℕ) (db db' : Db) : Prop where
  /-- No session is published. -/
  sessions : ∀ k, (db'.sessions.slot k).committed = (db.sessions.slot k).committed
  /-- None is about to be that was not before. -/
  pending : ∀ k s g, (db'.sessions.slot k).lock = some (i, some s) → s.Authorised g →
    (db.sessions.slot k).lock = some (i, some s)
  /-- Sessions that were held still are. -/
  kept : ∀ k v, (db.sessions.slot k).lock = some (i, v) →
    ∃ v', (db'.sessions.slot k).lock = some (i, v')
  /-- No credential is published. -/
  credentials : ∀ u, (db'.credentials.slot u).committed = (db.credentials.slot u).committed
  /-- A credential that is held has the generation it was found with. -/
  acquired : ∀ u c', (db'.credentials.slot u).lock = some (i, some c') →
    ∃ c, ((db.credentials.slot u).lock = some (i, some c) ∨
      (db.credentials.slot u).committed = some c) ∧ c'.generation = c.generation
  /-- One that was held still is. -/
  held : ∀ u c, (db.credentials.slot u).lock = some (i, some c) →
    ∃ c', (db'.credentials.slot u).lock = some (i, some c') ∧ c'.generation = c.generation

namespace Quiet

variable {pend : Uuid → Uuid → Prop} {userId : Uuid} {g : ℕ}

theorem noPending (h : Quiet i db db') (hn : NoPending i db) : NoPending i db' :=
  fun k s g hk hg => hn k s g (h.pending k s g hk hg) hg

theorem holding (h : Quiet i db db') (hh : Holding i userId g db) : Holding i userId g db' := by
  obtain ⟨c, hc, hgen⟩ := hh
  obtain ⟨c', hc', hgen'⟩ := h.held userId c hc
  exact ⟨c', hc', hgen'.trans hgen⟩

/-- A credential just taken hold of has the published generation, which is that of every
published session of its account. -/
theorem cleared (h : Quiet i db db') (hcur : SessionsCurrent db) (hc : Cleared i pend db) :
    Cleared i pend db' := by
  intro u c' hu k s g hk hg hsu
  rw [h.sessions k] at hk
  obtain ⟨c, hlock | hcom, hgen⟩ := h.acquired u c' hu
  · rcases hc u c hlock k s g hk hg hsu with hsame | ⟨v, hv⟩ | hp
    · exact Or.inl (hgen.trans hsame)
    · exact Or.inr (Or.inl (h.kept k v hv))
    · exact Or.inr (Or.inr hp)
  · obtain ⟨c₀, hc₀, hg₀⟩ := hcur k s g hk hg
    rw [hsu, hcom] at hc₀
    cases hc₀
    exact Or.inl (hgen.trans hg₀)

/-- The same credentials and sessions. -/
theorem of_eq (hc : db'.credentials = db.credentials) (hs : db'.sessions = db.sessions) :
    Quiet i db db' := by
  refine ⟨?_, ?_, ?_, ?_, ?_, ?_⟩ <;> simp only [hc, hs]
  · exact fun _ => trivial
  · exact fun k s g hk _ => hk
  · exact fun k v hv => ⟨v, hv⟩
  · exact fun _ => trivial
  · exact fun u c hu => ⟨c, Or.inl hu, rfl⟩
  · exact fun u c hu => ⟨c, hu, rfl⟩

end Quiet

variable {β : Type}

/-- The queries that neither replace a password nor insert a session, issued in an open
transaction. -/
def Query.quiet : Query β → Bool
  | .credentials .tx q => !q.replaces && q.newHash.isNone
  | .credentials .auto _ => false
  | .sessions q => !q.inserts
  | .commit => false
  | .rollback => false
  | _ => true

theorem quiet_credentials {q : Passwords.Query β} (hq : q.replaces = false) {b : β}
    (h : Query.run env (.credentials .tx q) i db = some (b, db')) : Quiet i db db' := by
  obtain ⟨t, ht, rfl⟩ := Query.run_credentials h
  refine ⟨fun _ => rfl, fun k s g hk _ => hk, fun k v hv => ⟨v, hv⟩, Table.committed_modify ht,
    fun u c' hu => ?_, fun u c hu => ?_⟩
  · rcases Table.lock_modify ht hu with hold | ⟨rfl, r, hr, hc'⟩
    · exact ⟨c', Or.inl hold, rfl⟩
    · -- the version found is the request's own, or the published one
      obtain ⟨c, hrow, hgen⟩ := Passwords.generation_of_query hq hr
      cases hc'
      refine ⟨c, ?_, hgen⟩
      rcases Slot.visible_cases i (db.credentials.slot q.key) with hi | hcom
      · exact Or.inl (hi.trans (by rw [← Table.row, hrow]))
      · exact Or.inr (hcom.symm.trans hrow)
  · obtain ⟨v, hv⟩ := Table.held_modify ht hu
    rcases Table.lock_modify ht hv with hold | ⟨rfl, r, hr, rfl⟩
    · rw [hu] at hold
      cases hold
      exact ⟨c, hv, rfl⟩
    · obtain ⟨c₀, hrow, hgen⟩ := Passwords.generation_of_query hq hr
      rw [Table.row, Slot.visible_of_held hu] at hrow
      cases hrow
      exact ⟨r, hv, hgen⟩

theorem quiet_sessions {q : Sessions.Query β} (hq : q.inserts = false) {b : β}
    (h : Query.run env (.sessions q) i db = some (b, db')) : Quiet i db db' := by
  obtain ⟨t, ht, rfl⟩ := Query.run_sessions h
  refine ⟨Table.committed_modify ht, fun k s g hk hg => ?_, fun k v => Table.held_modify ht,
    fun _ => rfl, fun u c hu => ⟨c, Or.inl hu, rfl⟩, fun u c hu => ⟨c, hu, rfl⟩⟩
  rcases Table.lock_modify ht hk with hold | ⟨rfl, r, hr, hs⟩
  · exact hold
  · cases hs
    exact absurd hg.1 (Sessions.revoked_of_query hq hr)

/-- **A quiet query**: what it does to credentials and sessions, said once. -/
theorem Query.quiet_run {q : Query β} (hq : q.quiet = true) {b : β}
    (h : Query.run env q i db = some (b, db')) : Quiet i db db' := by
  cases q with
  | credentials m q =>
    cases m with
    | tx =>
      have hrep : q.replaces = false := by
        rw [Query.quiet, Bool.and_eq_true, Bool.not_eq_true'] at hq
        exact hq.1
      exact quiet_credentials hrep h
    | auto => cases hq
  | sessions q =>
    have hins : q.inserts = false := by
      rw [Query.quiet, Bool.not_eq_true'] at hq
      exact hq
    exact quiet_sessions hins h
  | tokens m q =>
    obtain ⟨t, -, rfl⟩ := Query.run_tokens h
    exact .of_eq rfl rfl
  | users q =>
    obtain ⟨t, -, rfl⟩ := Query.run_users h
    exact .of_eq rfl rfl
  | enqueue k email =>
    obtain ⟨t, -, rfl⟩ := Query.run_enqueue h
    exact .of_eq rfl rfl
  | commit => cases hq
  | rollback => cases hq

theorem Query.newHash_of_quiet {q : Query β} (hq : q.quiet = true) : q.newHash = none := by
  cases q with
  | credentials m q =>
    cases m with
    | tx =>
      rw [Query.quiet, Bool.and_eq_true, Option.isNone_iff_eq_none] at hq
      exact hq.2
    | auto => cases hq
  | _ => rfl

/-! ### The ends of a transaction -/

/-- A version of process `i` is gone once its transaction has ended. -/
theorem HoldsNone.commit : HoldsNone i (db.commit i) :=
  fun _ _ hu => (Slot.lock_of_commit hu).1 rfl

theorem NoPending.commit : NoPending i (db.commit i) :=
  fun _ _ _ hk => absurd rfl (Slot.lock_of_commit hk).1

theorem HoldsNone.rollback : HoldsNone i (db.rollback i) :=
  fun _ _ hu => (Slot.lock_of_rollback hu).1 rfl

theorem NoPending.rollback : NoPending i (db.rollback i) :=
  fun _ _ _ hk => absurd rfl (Slot.lock_of_rollback hk).1

/-- **A session that a commit publishes or leaves published is current**: its own
transaction vouches for it, or the proviso does. -/
theorem SignInInv.commit (h : SignInInv env db)
    (hist : HistoryInv env (db.commit i) ∧ HistoryStep i db (db.commit i))
    (hclear : Cleared i (fun _ _ => False) db) (hready : Ready i db)
    (hC : codeSignInsCurrent i .commit db) :
    SignInInv env (db.commit i) ∧ SignInStep i db (db.commit i) := by
  have hcom : ∀ u c, (∀ v, (db.credentials.slot u).lock ≠ some (i, v)) →
      (db.credentials.slot u).committed = some c →
      ((db.commit i).credentials.slot u).committed = some c := by
    intro u c hnone hc
    rcases hl : (db.credentials.slot u).lock with _ | ⟨j, v⟩
    · exact (congrArg Slot.committed (Slot.commit_of_unlocked hl)).trans hc
    · have hne : j ≠ i := by
        rintro rfl
        exact hnone v hl
      exact (congrArg Slot.committed (Slot.commit_of_other hl hne)).trans hc
  refine ⟨⟨hist.1, fun k s g hk hg => ?_⟩,
    ⟨hist.2, Table.moves_commit i _, fun k s g hk hg => ?_⟩⟩
  · have hvis : (db.sessions.slot k).visible i = some s := by
      rw [← Slot.commit_committed]
      exact hk
    rcases Slot.visible_cases i (db.sessions.slot k) with hl | hpub
    · -- the session is published by this commit
      rw [hvis] at hl
      rcases hready k s g hl hg with ⟨c, hc, hgen⟩ | hnone
      · exact ⟨c, congrArg Slot.committed (Slot.commit_of_held hc), hgen⟩
      · obtain ⟨⟨c, hc, hgen⟩, -⟩ := hC k s g hl hg hnone
        exact ⟨c, hcom _ c hnone hc, hgen⟩
    · -- the session was published before, and is not being revoked
      rw [hpub] at hvis
      obtain ⟨c, hc, hgen⟩ := h.current k s g hvis hg
      rcases hl : (db.credentials.slot s.userId).lock with _ | ⟨j, v⟩
      · exact ⟨c, hcom _ c (by rw [hl]; nofun) hc, hgen⟩
      · rcases eq_or_ne j i with rfl | hne
        · obtain ⟨c', rfl⟩ : ∃ c', v = some c' := by
            obtain ⟨c', hc', -⟩ := h.history.ordered _ _ _ hl c hc
            exact ⟨c', hc'⟩
          refine ⟨c', congrArg Slot.committed (Slot.commit_of_held hl), ?_⟩
          rcases hclear _ c' hl k s g hvis hg rfl with hsame | ⟨w, hw⟩ | hp
          · exact hsame
          · rw [Slot.visible_of_held hw] at hpub
            rw [hpub, hvis] at hw
            rcases hready k s g hw hg with ⟨d, hd, hgen'⟩ | hnone
            · rw [hl] at hd
              cases hd
              exact hgen'
            · exact absurd hl (hnone _)
          · exact hp.elim
        · refine ⟨c, hcom _ c (fun w hw => ?_) hc, hgen⟩
          rw [hl] at hw
          cases hw
          exact hne rfl
  · have hvis : (db.sessions.slot k).visible i = some s := by
      rw [← Slot.commit_committed]
      exact hk
    rcases Slot.visible_cases i (db.sessions.slot k) with hl | hpub
    · right
      intro j c hne hc
      rw [hvis] at hl
      rcases hready k s g hl hg with ⟨d, hd, -⟩ | hnone
      · rw [hc] at hd
        cases hd
        exact absurd rfl hne
      · exact (hC k s g hl hg hnone).2 j c hc
    · left
      rw [← hpub]
      exact hvis

end Marketplace
