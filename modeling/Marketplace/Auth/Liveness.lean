import Marketplace.Auth.Accounts

/-!
# Dead sessions

A session dies when it is revoked, when its idle window closes, or of age. It stays dead as long
as nobody extends a window that has closed, and the statement that extends one does not ask: it
looks at whether the session was revoked and at when it was last seen. So a session whose window
closes between the two statements of one request is brought back
(`Marketplace.Accounts.session_revived`); otherwise the dead stay dead, and no later request
succeeds with one (`Marketplace.Accounts.sessions_die_for_good`).

What carries the proof is that whatever is written over a session that is there, and is not
published yet, ends it (`Marketplace.Accounts.Ending`).
-/

namespace Marketplace.Accounts

open ReadCommitted

/-! ### The invariant -/

/-- The session is there, and authenticates nobody any more. -/
def Dead (k : Uuid) (db : Db) : Prop :=
  ∃ s, (db.auth.sessions.slot k).committed = some s ∧ s.live db.auth.clock = false

/-- Whatever is written over a session that is there, and is not published, ends it. -/
def Ending (t : Table ℕ Uuid Session) : Prop :=
  ∀ k j v s, (t.slot k).lock = some (j, v) → (t.slot k).committed = some s →
    ∃ w, v = some { s with revoked := some w }

/-- A session that is there stays as it is, or is ended. -/
def Ended (t t' : Table ℕ Uuid Session) : Prop :=
  ∀ k s, (t.slot k).committed = some s →
    (t'.slot k).committed = some s ∨ ∃ w, (t'.slot k).committed = some { s with revoked := some w }

/-- **Nobody extends a window that has closed**: an extension that finds one writes one that has
closed as well. -/
def ExtendsLive {β : Type} (_ : ℕ) (q : Query β) (db : Db) : Prop :=
  match q with
  | .touch k idleExpiresAt minIntervalSecs now =>
    ∀ s, (db.auth.sessions.slot k).committed = some s → s.touchable minIntervalSecs now = true →
      s.idleExpiresAt ≤ db.auth.clock → min idleExpiresAt s.absoluteExpiresAt ≤ db.auth.clock
  | _ => True

section Step

variable {s : Session} {t t' : Table ℕ Uuid Session} {i : ℕ} {k : Uuid} {now : ℕ}

theorem live_of_revoked (h : s.revoked ≠ none) : s.live now = false := by
  have hno : s.revoked.isNone = false := by rwa [Option.isNone_eq_false_iff, Option.isSome_iff_ne_none]
  simp [Session.live, hno]

theorem live_iff : s.live now = true ↔
    s.revoked = none ∧ now < s.idleExpiresAt ∧ now < s.absoluteExpiresAt := by
  rw [Session.live, Bool.and_eq_true, Bool.and_eq_true, decide_eq_true_eq, decide_eq_true_eq,
    Option.isNone_iff_eq_none, and_assoc]

/-- A session that is dead is dead later on. -/
theorem live_mono (n : ℕ) (h : s.live now = false) : s.live (now + n) = false := by
  rw [← Bool.not_eq_true] at h ⊢
  intro hlive
  obtain ⟨hrev, hidle, hage⟩ := live_iff.mp hlive
  have hle : now ≤ now + n := Nat.le_add_right now n
  exact h (live_iff.mpr ⟨hrev, lt_of_le_of_lt hle hidle, lt_of_le_of_lt hle hage⟩)

/-- A window that is extended, of a session that is dead, stays closed, if what is written is one
that has closed. -/
theorem live_touched {idle begun : ℕ} (h : s.live now = false)
    (hclosed : s.idleExpiresAt ≤ now → min idle s.absoluteExpiresAt ≤ now) :
    (s.touched idle begun).live now = false := by
  rw [← Bool.not_eq_true] at h ⊢
  intro hlive
  obtain ⟨hrev, hidle, hage⟩ := live_iff.mp hlive
  refine h (live_iff.mpr ⟨hrev, ?_, hage⟩)
  by_contra hle
  exact absurd hidle (not_lt.mpr (hclosed (not_lt.mp hle)))

/-- **A statement of the sign-in service writes nothing over a session but its end.** -/
theorem Ending.effect (h : Ending t) (he : t.Effect (fun _ => Sessions.Act) i t') :
    Ending t' ∧ Ended t t' := by
  cases he with
  | keep => exact ⟨h, fun k s hk => Or.inl hk⟩
  | @put k₀ r m hfree hA =>
    -- what is put over a session that is there is its end
    have hput : ∀ s, (t.slot k₀).committed = some s → ∃ w, r = { s with revoked := some w } := by
      intro s hs
      rcases Slot.visible_cases i (t.slot k₀) with hi | hc
      · obtain ⟨w, hw⟩ := h k₀ i _ s hi hs
        rw [Table.row, hw] at hA
        cases hA with
        | revoked s₀ reason now => exact ⟨_, rfl⟩
      · rw [Table.row, hc, hs] at hA
        cases hA with
        | revoked s₀ reason now => exact ⟨_, rfl⟩
    refine ⟨fun k j v s hlock hk => ?_, fun k s hk => ?_⟩ <;> rcases eq_or_ne k k₀ with rfl | hne
    · rw [Table.slot_put_self] at hlock hk
      obtain ⟨-, rfl, rfl⟩ := Slot.lock_put hlock
      obtain ⟨w, rfl⟩ := hput s hk
      exact ⟨w, rfl⟩
    · rw [Table.slot_put_of_ne hne] at hlock hk
      exact h k j v s hlock hk
    · rw [Table.slot_put_self]
      obtain ⟨w, rfl⟩ := hput s hk
      cases m with
      | tx => exact Or.inl hk
      | auto => exact Or.inr ⟨w, rfl⟩
    · rw [Table.slot_put_of_ne hne]
      exact Or.inl hk
  | commit =>
    refine ⟨fun k j v s hlock hk => ?_, fun k s hk => ?_⟩
    · obtain ⟨hne, hlock⟩ := Slot.lock_of_commit hlock
      rw [Table.slot_commit, Slot.commit_of_other hlock hne] at hk
      exact h k j v s hlock hk
    · rw [Table.slot_commit, Slot.commit_committed]
      rcases Slot.visible_cases i (t.slot k) with hi | hc
      · exact Or.inr (h k i _ s hi hk)
      · exact Or.inl (hc.trans hk)
  | rollback =>
    refine ⟨fun k j v s hlock hk => ?_, fun k s hk => Or.inl ?_⟩
    · rw [Table.slot_rollback, Slot.rollback_committed] at hk
      exact h k j v s (Slot.lock_of_rollback hlock).2 hk
    · rw [Table.slot_rollback, Slot.rollback_committed]
      exact hk

/-- What extending a session does to the table. -/
theorem Ending.touched (h : Ending t) {idle begun : Instant} (hslot : t.slot k = ⟨some s, none⟩) :
    Ending (t.put k ⟨some (s.touched idle begun), none⟩) := by
  intro l j v s' hlock hl
  rcases eq_or_ne l k with rfl | hne
  · rw [Table.slot_put_self] at hlock
    cases hlock
  · rw [Table.slot_put_of_ne hne] at hlock hl
    exact h l j v s' hlock hl

end Step

variable {env : Surroundings} {i : ℕ} {k : Uuid} {db db' : Db} {β : Type} {q : Query β} {b : β}

/-- **What one query does to the sessions**: nothing but to end some of them, or to extend one. -/
theorem sessions_of_run (hs : Ending db.auth.sessions) (h : q.run env.toEnv i db = some (b, db')) :
    Ending db'.auth.sessions ∧ db'.auth.clock = db.auth.clock ∧
      (Ended db.auth.sessions db'.auth.sessions ∨
        ∃ k idle secs now s, db.auth.sessions.slot k = ⟨some s, none⟩ ∧
          s.touchable secs now = true ∧
          (ExtendsLive i q db → s.idleExpiresAt ≤ db.auth.clock →
            min idle s.absoluteExpiresAt ≤ db.auth.clock) ∧
          db'.auth.sessions = db.auth.sessions.put k ⟨some (s.touched idle now), none⟩) := by
  have hkept : Ended db.auth.sessions db.auth.sessions := fun k s hk => Or.inl hk
  cases q with
  | service q =>
    obtain ⟨auth, hq, rfl⟩ := run_service h
    obtain ⟨hend, hended⟩ := hs.effect (Marketplace.Query.effects hq).sessions
    exact ⟨hend, (Marketplace.Query.effects hq).clock, Or.inl hended⟩
  | touch k idle secs now =>
    rcases run_touch h with rfl | ⟨s, hslot, hpass, rfl⟩
    · exact ⟨hs, rfl, Or.inl hkept⟩
    · refine ⟨hs.touched hslot, rfl, Or.inr ⟨k, idle, secs, now, s, hslot, hpass, ?_, rfl⟩⟩
      exact fun hC => hC s (by rw [hslot]) hpass
  | insertUser user =>
    rcases run_insertUser h with ⟨-, rfl⟩ | ⟨-, rfl⟩ <;> exact ⟨hs, rfl, Or.inl hkept⟩
  | insertCredential u hash =>
    obtain ⟨t, rfl⟩ := run_insertCredential h
    exact ⟨hs, rfl, Or.inl hkept⟩
  | insertIdentity identity =>
    rcases run_insertIdentity h with ⟨-, rfl⟩ | ⟨-, t, -, -, rfl⟩ <;> exact ⟨hs, rfl, Or.inl hkept⟩
  | touchLogin id now =>
    obtain ⟨t, -, rfl⟩ := run_touchLogin h
    exact ⟨hs, rfl, Or.inl hkept⟩

/-- **What one query does to the dead**: they stay dead, if no window is extended that has
closed. -/
theorem dead_of_run (hs : Ending db.auth.sessions) (hC : ExtendsLive i q db)
    (h : q.run env.toEnv i db = some (b, db')) :
    Ending db'.auth.sessions ∧ ∀ k, Dead k db → Dead k db' := by
  obtain ⟨hs', hclock, hcases⟩ := sessions_of_run hs h
  refine ⟨hs', fun k hk => ?_⟩
  obtain ⟨s, hcom, hlive⟩ := hk
  rw [Dead, hclock]
  rcases hcases with hended | ⟨l, idle, secs, now, s', hslot, -, hextends, ht⟩
  · rcases hended k s hcom with hsame | ⟨w, hw⟩
    · exact ⟨s, hsame, hlive⟩
    · exact ⟨_, hw, live_of_revoked nofun⟩
  · rw [ht]
    rcases eq_or_ne k l with rfl | hne
    · rw [hslot] at hcom
      cases hcom
      exact ⟨s.touched idle now, by rw [Table.slot_put_self], live_touched hlive (hextends hC)⟩
    · exact ⟨s, by rwa [Table.slot_put_of_ne hne], hlive⟩

/-- **No query moves the end of an idle window past the end of the session.** -/
theorem idle_le_of_run {s s' : Session} (hs : Ending db.auth.sessions)
    (h : q.run env.toEnv i db = some (b, db'))
    (hk : (db.auth.sessions.slot k).committed = some s)
    (hk' : (db'.auth.sessions.slot k).committed = some s')
    (hne : s'.idleExpiresAt ≠ s.idleExpiresAt) : s'.idleExpiresAt ≤ s'.absoluteExpiresAt := by
  obtain ⟨-, -, hended | ⟨l, idle, secs, now, s₀, hslot, -, -, ht⟩⟩ := sessions_of_run hs h
  · rcases hended k s hk with hsame | ⟨w, hw⟩
    · rw [hsame] at hk'
      cases hk'
      exact absurd rfl hne
    · rw [hw] at hk'
      cases hk'
      exact absurd rfl hne
  · rw [ht] at hk'
    rcases eq_or_ne k l with rfl | hkl
    · rw [Table.slot_put_self] at hk'
      cases hk'
      exact Nat.min_le_right _ _
    · rw [Table.slot_put_of_ne hkl, hk] at hk'
      cases hk'
      exact absurd rfl hne

/-! ### The contract -/

variable (env)

/-- The dead stay dead. -/
def livenessContract : Contract (accounts env) ExtendsLive where
  inv db := Ending db.auth.sessions
  guar _ db db' := ∀ k, Dead k db → Dead k db'
  inv_tick _ h := h
  rollback hs hC h := @dead_of_run env _ _ _ _ _ _ hs hC h

theorem sound_all (q : Query β) : (livenessContract env).Sound q := by
  intro i db b db' hs hC h
  exact @dead_of_run env _ _ _ _ _ _ hs hC h

theorem Dead.tick (n : ℕ) (h : Dead k db) : Dead k ((accounts env).tick n db) := by
  obtain ⟨s, hs, hlive⟩ := h
  exact ⟨s, hs, live_mono n hlive⟩

/-- The session is dead. -/
def dead (k : Uuid) (i : ℕ) : Assertion (livenessContract env) i where
  holds db := Dead k db
  stable _ _ _ hg h := by
    have hg : ∀ k, Dead k _ → Dead k _ := hg
    exact hg k h
  tick n _ h := h.tick env n

/-- **A process that does not see a dead session as live.** -/
theorem not_live_of_dead {now : Instant} {s : Session} (hs : Ending db.auth.sessions) (h : Dead k db)
    (hrow : db.auth.sessions.row i k = some s) (hnow : db.auth.clock = now) : s.live now = false := by
  obtain ⟨s₀, hs₀, hlive⟩ := h
  rcases Slot.visible_cases i (db.auth.sessions.slot k) with hi | hc
  · obtain ⟨w, hw⟩ := hs k i _ s₀ hi hs₀
    cases hrow.symm.trans hw
    exact live_of_revoked nofun
  · cases hrow.symm.trans (hc.trans hs₀)
    exact hnow ▸ hlive

/-- **A request that presents the token of a dead session** is not answered with it. -/
theorem safe_authenticate {rawToken : Text} :
    Safe (fun a => .fact (∀ who, a = .ok (.authenticated who) → who.sessionId ≠ k))
      (authenticate env rawToken).run (dead env k i) := by
  refine Safe.look_andThen (fun found => .fact (∀ p, found = some p → p.1 ≠ k)) ?_ fun found => ?_
  · rintro db hs h ⟨l, s⟩ hfound rfl
    obtain ⟨l', hl', hrow⟩ := Option.bind_eq_some_iff.mp hfound
    obtain ⟨s', hs', he⟩ := Option.map_eq_some_iff.mp hrow
    cases he
    obtain ⟨s'', hs'', hpass⟩ := Table.mem_scan.mp (List.mem_of_mem_head? hl')
    rw [hs'] at hs''
    cases hs''
    have hs : Ending db.auth.sessions := hs
    rw [Bool.and_eq_true, not_live_of_dead hs h hs' rfl] at hpass
    cases hpass.2
  · rcases found with _ | ⟨l, s⟩
    · exact Safe.ret fun _ _ _ who hw => nomatch hw
    · refine Safe.look_keep fun user => ?_
      rcases user with _ | user
      · exact Safe.ret fun _ _ _ who hw => nomatch hw
      · dsimp only
        split_ifs
        · exact Safe.ret fun _ _ _ who hw => nomatch hw
        · refine Safe.look_keep fun now => ?_
          refine Safe.keep_andThen (Prog.each_of_forall fun q => ?_)
            (fun _ _ _ _ who hw => nomatch hw) fun _ => ?_
          · exact (sound_all env q).keeps fun _ _ _ _ _ h => h
          · refine Safe.ret fun _ _ h who hw => ?_
            cases hw
            exact h _ rfl

/-! ### Runs -/

variable {env} {db₀ : Db} {c d : Config ℕ Db Request (Except AppError Response) Query}

theorem ending_of_unlocked (h₀ : ∀ k, (db₀.auth.sessions.slot k).lock = none) :
    Ending db₀.auth.sessions := by
  intro k j v s hlock
  rw [h₀ k] at hlock
  cases hlock

theorem ending_of_reachable (h₀ : ∀ k, (db₀.auth.sessions.slot k).lock = none)
    (hc : Reachable (accounts env) ExtendsLive (.initial db₀) c) : Ending c.db.auth.sessions :=
  invariant_of_run (fun db => Ending db.auth.sessions)
    (fun _ _ _ _ _ hs hC h => (@dead_of_run env _ _ _ _ _ _ hs hC h).1) (fun _ _ hs => hs)
    (ending_of_unlocked h₀) hc

/-- **Sessions die for good**, in every run in which no window is extended that has closed: a
session that is dead stays dead, and no request that arrives later succeeds with it; and no
window is extended past the end of its session. -/
theorem sessions_die_for_good (h₀ : ∀ k, (db₀.auth.sessions.slot k).lock = none)
    (hc : Reachable (accounts env) ExtendsLive (.initial db₀) c) :
    (∀ d k, Reachable (accounts env) ExtendsLive c d → Dead k c.db → Dead k d.db) ∧
      (∀ d k i rawToken who, Reachable (accounts env) ExtendsLive c d → Dead k c.db →
        c.procs i = .idle → d.Served i (.authenticate rawToken) (.ok (.authenticated who)) →
        who.sessionId ≠ k) ∧
      ∀ d k s s', Step (accounts env) ExtendsLive c d →
        (c.db.auth.sessions.slot k).committed = some s →
        (d.db.auth.sessions.slot k).committed = some s' → s'.idleExpiresAt ≠ s.idleExpiresAt →
        s'.idleExpiresAt ≤ s'.absoluteExpiresAt := by
  have hs := ending_of_reachable h₀ hc
  refine ⟨fun d k hd hk => ?_, fun d k i rawToken who hd hk hidle hserved => ?_,
    fun d k s s' hstep hk hk' hne => ?_⟩
  · exact (rel_of_run (fun db => Ending db.auth.sessions) (fun db db' => Dead k db → Dead k db')
      (fun _ h => h) (fun _ _ _ h h' hk => h' (h hk))
      (fun _ _ _ _ _ hs hC h => ⟨(@dead_of_run env _ _ _ _ _ _ hs hC h).1,
        (@dead_of_run env _ _ _ _ _ _ hs hC h).2 k⟩)
      (fun _ n hs => ⟨hs, fun hk => hk.tick env n⟩) hs hd).2 hk
  · exact Contract.served_after (sound_all env) (safe_authenticate env) hs hk hidle hd hserved who rfl
  · have hsame : d.db = c.db → s'.idleExpiresAt = s.idleExpiresAt := by
      rintro hdb
      rw [hdb, hk] at hk'
      cases hk'
      rfl
    cases hstep with
    | arrive => exact absurd (hsame rfl) hne
    | read => exact absurd (hsame rfl) hne
    | query hi hC hq => exact @idle_le_of_run env _ _ _ _ _ _ _ _ _ hs hq hk hk' hne
    | @crash i r p db hi hC hq =>
      have hq : (Query.service .rollback).run env.toEnv i c.db = some ((), db) := hq
      exact @idle_le_of_run env _ _ _ _ _ _ _ _ _ hs hq hk hk' hne
    | tick n =>
      have hk' : (c.db.auth.sessions.slot k).committed = some s' := hk'
      cases hk.symm.trans hk'
      exact absurd rfl hne

/-! ### The window that closes meanwhile -/

/-- Surroundings to run a schedule in, where no token is vouched for. -/
def plain : Surroundings :=
  { Env.plain with
    roles := fun _ => [.homeowner]
    verifyToken := fun _ _ _ => .error (.invalid "The sign-in token is malformed.") }

/-- A session of the first account, with the token `tok`, whose idle window closes at 1000. -/
def firstSession : Session where
  userId := 0
  tokenHash := Env.plain.digestToken "tok".toList
  idleExpiresAt := 1000
  absoluteExpiresAt := 5000
  lastSeenAt := 0

/-- One account, with a session. -/
def oneSession : Db where
  auth := { oneAccount with sessions := Table.empty.put 0 { committed := some firstSession } }

/-- The session is presented. -/
def presented : Request := .authenticate "tok".toList

/-- The first session is dead. -/
def firstDead (db : Db) : Bool :=
  (db.auth.sessions.slot 0).committed.any fun s => !s.live db.auth.clock

theorem dead_of_firstDead {db : Db} (h : firstDead db = true) : Dead 0 db := by
  obtain ⟨s, hs, hdead⟩ := (Option.any_eq_true _ _).mp h
  exact ⟨s, hs, by simpa using hdead⟩

/-- What a process has been told that presented a session. -/
def presentedAs (c : Config ℕ Db Request (Except AppError Response) Query) (i : ℕ) : Option Uuid :=
  match c.procs i with
  | .running (.authenticate _) (.ret (.ok (.authenticated who))) => some who.sessionId
  | _ => none

/-- The session is found live, and then its window closes. -/
def foundLive : List (Event ℕ Request) :=
  [.tick 900, .arrive 1 presented, .run 1, .tick 200]

/-- The first request goes on, and a second one arrives. -/
def presentedAgain : List (Event ℕ Request) :=
  List.replicate 5 (.run 1) ++ .arrive 2 presented :: List.replicate 5 (.run 2)

/-- **A dead session is brought back**: its window closes after a request has found it live, and
before that request extends it; another request, which arrives when it is dead, succeeds. -/
theorem session_revived :
    ∃ c d, Reachable (accounts plain) anyQuery (.initial oneSession) c ∧
      Reachable (accounts plain) anyQuery c d ∧ Dead 0 c.db ∧ c.procs 2 = .idle ∧
      ∃ rawToken who, d.Served 2 (.authenticate rawToken) (.ok (.authenticated who)) ∧
        who.sessionId = 0 := by
  obtain ⟨c, d, hc, hd, hP⟩ := exists_of_exec_exec (accounts plain) foundLive presentedAgain
    (.initial oneSession)
    (fun c d => firstDead c.db && decide (c.procs 2 = .idle) && decide (presentedAs d 2 = some 0))
    (by decide +kernel)
  simp only [Bool.and_eq_true, decide_eq_true_eq] at hP
  obtain ⟨⟨hdead, hidle⟩, hserved⟩ := hP
  refine ⟨c, d, hc, hd, dead_of_firstDead hdead, hidle, ?_⟩
  rw [presentedAs] at hserved
  split at hserved
  · rename_i rawToken who hi
    exact ⟨rawToken, who, hi, Option.some.inj hserved⟩
  · cases hserved

/-- A check that implies that no window is extended that has closed. -/
def extendsLive {β : Type} (_ : ℕ) (q : Query β) (db : Db) : Bool :=
  match q with
  | .touch k _ _ _ =>
    (db.auth.sessions.slot k).committed.all fun s => decide (db.auth.clock < s.idleExpiresAt)
  | _ => true

theorem extendsLive_of_check {β : Type} (i : ℕ) (q : Query β) (db : Db)
    (h : extendsLive i q db = true) : ExtendsLive i q db := by
  cases q with
  | touch k idle secs now =>
    intro s hs _ hclosed
    rw [extendsLive, hs, Option.all_some, decide_eq_true_eq] at h
    exact absurd h (not_lt.mpr hclosed)
  | _ => trivial

/-- A session that is used, and signed out of. -/
def signedOut : List (Event ℕ Request) :=
  .tick 900 :: .arrive 1 presented :: List.replicate 6 (.run 1) ++
    .arrive 2 (.service (.logout 0)) :: List.replicate 4 (.run 2)

/-- The session is presented again. -/
def presentedLater : List (Event ℕ Request) := .arrive 3 presented :: [.run 3]

theorem sessions_die_for_good_signedOut :
    ∃ c d, Reachable (accounts plain) ExtendsLive (.initial oneSession) c ∧
      Reachable (accounts plain) ExtendsLive c d ∧ Dead 0 c.db ∧ Dead 0 d.db := by
  obtain ⟨c, d, hc, hd, hdead⟩ := exists_of_exec_exec ((accounts plain).guarded extendsLive)
    signedOut presentedLater (.initial oneSession) (fun c _ => firstDead c.db) (by decide +kernel)
  have hc := reachable_of_guarded extendsLive_of_check hc
  have hd := reachable_of_guarded extendsLive_of_check hd
  have hfree : ∀ k, (oneSession.auth.sessions.slot k).lock = none := by
    intro k
    rcases eq_or_ne k 0 with rfl | hne
    · rfl
    · exact congrArg Slot.lock (Table.slot_put_of_ne hne)
  have hdead := dead_of_firstDead hdead
  exact ⟨c, d, hc, hd, hdead, (sessions_die_for_good hfree hc).1 d 0 hd hdead⟩

end Marketplace.Accounts
