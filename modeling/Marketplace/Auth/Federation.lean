import Marketplace.Auth.Accounts
import Marketplace.Auth.Footprint
import Marketplace.ReadCommitted.Lasting

/-!
# Accounts and their identities

An identity is known by provider and subject, and a unique index lets it belong to one account.
An account that was made for an identity is published together with it
(`Marketplace.Accounts.Federated`), which is what a process has to know when it commits
(`Marketplace.Accounts.Complete`). This file says what one query does to accounts, identities and
sessions (`Marketplace.Accounts.cases_of_run`), and what it keeps.
-/

namespace Marketplace.Accounts

open ReadCommitted

/-! ### What rows keep -/

/-- What an identity is for good: whose, of what, and how it came to be. -/
def known (identity : OauthIdentity) : Uuid × (Provider × Text) × Option Uuid :=
  (identity.userId, identity.key, identity.linkedBy)

/-- What an account is for good. -/
def origin (u : User) : Option (Provider × Text) × AccountType := (u.firstIdentity, u.accountType)

/-- The identity belongs to the account. -/
def Resolves (db : Db) (x : Provider × Text) (u : Uuid) : Prop :=
  ∃ l r, (db.identities.slot l).committed = some r ∧ r.key = x ∧ r.userId = u

/-- Process `i` sees that the identity belongs to the account. -/
def Sees (i : ℕ) (db : Db) (x : Provider × Text) (u : Uuid) : Prop :=
  ∃ l r, db.identities.row i l = some r ∧ r.key = x ∧ r.userId = u

/-- Process `i` is making the account. -/
def Making (i : ℕ) (db : Db) (u : Uuid) : Prop :=
  (∃ user, db.auth.users.Draft i u user) ∧ (db.auth.users.slot u).committed = none

/-- **Every account that process `i` is about to publish, and that was made for an identity, has
it.** -/
def Complete (i : ℕ) (db : Db) : Prop :=
  ∀ k u x, db.auth.users.Draft i k u → u.firstIdentity = some x → Sees i db x k

/-- **The invariant.** -/
structure Federated (db : Db) : Prop where
  /-- An identity is there once. -/
  unique : db.identities.AtMostOne fun r => some r.key
  /-- Accounts last. -/
  users : db.auth.users.Ordered (Lasts origin)
  /-- Identities last. -/
  identities : db.identities.Ordered (Lasts known)
  /-- Sessions last. -/
  sessions : db.auth.sessions.Ordered (Lasts Session.userId)
  /-- An account that was made for an identity has it. -/
  made : ∀ k u x, (db.auth.users.slot k).committed = some u → u.firstIdentity = some x →
    Resolves db x k
  /-- An identity that nobody asked to link is being made with its account. -/
  claimed : ∀ i l r, db.identities.Draft i l r → (db.identities.slot l).committed = none →
    r.linkedBy = none → Making i db r.userId

/-- What one query of process `i` can do. -/
structure Goes (i : ℕ) (db db' : Db) : Prop where
  users : Table.Moves i db.auth.users db'.auth.users
  identities : Table.Moves i db.identities db'.identities
  sessions : Table.Moves i db.auth.sessions db'.auth.sessions
  usersGrown : Table.Grown (Lasts origin) db.auth.users db'.auth.users
  identitiesGrown : Table.Grown (Lasts known) db.identities db'.identities
  sessionsGrown : Table.Grown (Lasts Session.userId) db.auth.sessions db'.auth.sessions

section Rows

variable {i j : ℕ} {db db' : Db} {x : Provider × Text} {u k : Uuid} {r r' : OauthIdentity}

theorem userId_of_known (h : known r' = known r) : r'.userId = r.userId := congrArg Prod.fst h

theorem key_of_known (h : known r' = known r) : r'.key = r.key := congrArg (fun p => p.2.1) h

theorem linkedBy_of_known (h : known r' = known r) : r'.linkedBy = r.linkedBy :=
  congrArg (fun p => p.2.2) h

theorem Resolves.later (h : Resolves db x u)
    (hg : Table.Grown (Lasts known) db.identities db'.identities) : Resolves db' x u := by
  obtain ⟨l, r, hr, hkey, huser⟩ := h
  obtain ⟨r', hr', hknown⟩ := hg l r hr
  exact ⟨l, r', hr', (key_of_known hknown).trans hkey, (userId_of_known hknown).trans huser⟩

theorem Sees.later (h : Sees i db x u)
    (hg : ∀ l, Lasts known (db.identities.row i l) (db'.identities.row i l)) : Sees i db' x u := by
  obtain ⟨l, r, hr, hkey, huser⟩ := h
  obtain ⟨r', hr', hknown⟩ := hg l r hr
  exact ⟨l, r', hr', (key_of_known hknown).trans hkey, (userId_of_known hknown).trans huser⟩

theorem sees_of_resolves (hs : Federated db) (h : Resolves db x u) : Sees i db x u := by
  obtain ⟨l, r, hr, hkey, huser⟩ := h
  obtain ⟨r', hr', hknown⟩ := hs.identities.le_row Lasts.refl i l r hr
  exact ⟨l, r', hr', (key_of_known hknown).trans hkey, (userId_of_known hknown).trans huser⟩

/-- **An identity belongs to one account.** -/
theorem Resolves.unique {v : Uuid} (hs : Federated db) (h : Resolves db x u) (h' : Resolves db x v) :
    u = v := by
  obtain ⟨l, r, hr, hkey, rfl⟩ := h
  obtain ⟨l', r', hr', hkey', rfl⟩ := h'
  obtain rfl : l = l' := hs.unique.published ⟨r, hr, congrArg some hkey⟩ ⟨r', hr', congrArg some hkey'⟩
  rw [hr] at hr'
  cases hr'
  rfl

theorem Making.of_other (h : Making i db u) (hm : Table.Moves j db.auth.users db'.auth.users)
    (hne : j ≠ i) : Making i db' u := by
  obtain ⟨⟨user, huser⟩, hnone⟩ := h
  refine ⟨⟨user, (Table.draft_iff_of_other hm hne).mpr huser⟩, ?_⟩
  rw [(hm u).eq_of_held huser hne.symm]
  exact hnone

theorem Complete.of_other (h : Complete i db) (hg : Goes j db db') (hne : j ≠ i) :
    Complete i db' := by
  intro k u x hu hx
  exact (h k u x ((Table.draft_iff_of_other hg.users hne).mp hu) hx).later
    (Table.le_row_of_other hg.identities hg.identitiesGrown Lasts.refl hne)

/-- What a process sees of the sessions, it sees after the step of another one. -/
theorem Goes.sessions_row (hg : Goes j db db') (hne : j ≠ i) (k : Uuid) :
    Lasts Session.userId (db.auth.sessions.row i k) (db'.auth.sessions.row i k) :=
  Table.le_row_of_other hg.sessions hg.sessionsGrown Lasts.refl hne k

end Rows

/-! ### What one query does -/

/-- The query writes no address over another one. -/
def Query.keepsEmail {β : Type} : Query β → Bool
  | .service (.users (.updateEmail _ _ _)) => false
  | _ => true

/-- The query commits. -/
def Query.commits {β : Type} : Query β → Bool
  | .service .commit => true
  | _ => false

/-- The query ends the transaction. -/
def Query.ends {β : Type} : Query β → Bool
  | .service .commit => true
  | .service .rollback => true
  | _ => false

/-- The account, or the identity, that the query inserts is one of these. -/
def Query.Inserts {β : Type} (newUser : User → Prop) (new : OauthIdentity → Prop) : Query β → Prop
  | .insertUser user => newUser user
  | .insertIdentity identity => new identity
  | _ => True

/-- What the query may write over an account: the same account, or a new one of these. -/
def OnUser {β : Type} (newUser : User → Prop) (q : Query β) (m : Mode) (_ : Uuid)
    (o : Option User) (u : User) : Prop :=
  m = .tx ∧ Lasts origin o (some u) ∧ (o = none → newUser u) ∧
    (q.keepsEmail = true → Lasts User.email o (some u))

/-- What a statement may write over an identity: the same identity, or a new one of these. -/
def OnIdentity (new : OauthIdentity → Prop) (m : Mode) (_ : Uuid) (o : Option OauthIdentity)
    (r : OauthIdentity) : Prop :=
  m = .tx ∧ Lasts known o (some r) ∧ (o = none → new r)

/-- What a statement may write over a session. -/
def OnSession (_ : Mode) (_ : Uuid) (o : Option Session) (s : Session) : Prop :=
  Lasts Session.userId o (some s)

/-- **What a query does that does not end the transaction.** -/
structure Writes {β : Type} (q : Query β) (newUser : User → Prop) (new : OauthIdentity → Prop)
    (i : ℕ) (db db' : Db) : Prop where
  users : Table.Written (OnUser newUser q) i db.auth.users db'.auth.users
  identities : Table.Written (OnIdentity new) i db.identities db'.identities
  unique : (db.identities.AtMostOne fun r => some r.key) →
    db'.identities.AtMostOne fun r => some r.key
  sessions : Table.Written OnSession i db.auth.sessions db'.auth.sessions

/-- The identity is of an account that process `i` is making, unless somebody asked for it. -/
def Joins (i : ℕ) (db : Db) (identity : OauthIdentity) : Prop :=
  identity.linkedBy = none → Making i db identity.userId

/-- **What process `i` has to know to run the query.** -/
def Ready {β : Type} (i : ℕ) (db : Db) (q : Query β) : Prop :=
  (q.commits = true → Complete i db) ∧ q.Inserts (fun _ => True) (Joins i db)

variable {env : Env} {i : ℕ} {db db' : Db} {β : Type} {b : β}

theorem origin_of_act {o : Option User} {u : User} (h : Users.Act i o u) :
    Lasts origin o (some u) ∧ o ≠ none := by
  cases h with
  | marked u now => exact ⟨Lasts.some rfl, nofun⟩
  | addressed u email now => exact ⟨Lasts.some rfl, nofun⟩

theorem Query.Inserts.mono {newUser newUser' : User → Prop} {new new' : OauthIdentity → Prop}
    {q : Query β} (h : q.Inserts newUser new) (hu : ∀ u, newUser u → newUser' u)
    (hi : ∀ r, new r → new' r) : q.Inserts newUser' new' := by
  cases q with
  | insertUser user => exact hu user h
  | insertIdentity identity => exact hi identity h
  | _ => trivial

theorem written_users {newUser : User → Prop} {q : Users.Query β} {t t' : Table ℕ Uuid User}
    (h : q.run env i t = some (b, t')) :
    Table.Written (OnUser newUser (.service (.users q))) i t t' := by
  have hput : ∀ {k : Uuid} {o : Option User} {u : User}, Users.Act i o u →
      ((Query.service (.users q)).keepsEmail = true → Lasts User.email o (some u)) →
      OnUser newUser (.service (.users q)) .tx k o u :=
    fun hact hemail =>
      ⟨rfl, (origin_of_act hact).1, fun hnone => absurd hnone (origin_of_act hact).2, hemail⟩
  cases q with
  | markEmailVerified userId now =>
    refine Table.written_of_modify h fun r hr => ?_
    obtain ⟨u, b, hu, hc⟩ := Table.updating_cases hr
    rw [hu]
    split at hc
    · rename_i hnone
      cases hc
      exact hput (.marked u now hnone) fun _ => Lasts.some rfl
    · cases hc
  | updateEmail userId email now =>
    rcases Users.updateEmail_cases h with ⟨-, rfl⟩ | ⟨u, hu, hfree, -, rfl⟩
    · exact .keep _
    · refine .put hfree ?_
      rw [hu]
      exact hput (.addressed u email now) fun hkeeps => absurd hkeeps Bool.false_ne_true

theorem written_sessions {q : Sessions.Query β} {t t' : Table ℕ Uuid Session}
    (h : t.modify .tx i q.key q.act = some (b, t')) : Table.Written OnSession i t t' := by
  have hact : ∀ {o : Option Session} {s : Session}, Sessions.Act o s →
      Lasts Session.userId o (some s) := by
    intro o s hact
    cases hact with
    | inserted s => exact Lasts.none
    | revoked s reason now hlive => exact Lasts.some rfl
  exact Table.written_of_modify h fun s hs => hact (Sessions.act_of_query hs)

/-- **A query either ends the transaction, or writes what it may.** -/
theorem cases_of_run {newUser : User → Prop} {new : OauthIdentity → Prop} {q : Query β}
    (h : q.run env i db = some (b, db')) (hnew : q.Inserts newUser new) :
    (q.commits = true ∧ q.ends = true ∧
        db' = { auth := db.auth.commit i, identities := db.identities.commit i }) ∨
      (q.ends = true ∧
        db' = { auth := db.auth.rollback i, identities := db.identities.rollback i }) ∨
      Writes q newUser new i db db' := by
  cases q with
  | service q =>
    obtain ⟨auth, hq, rfl⟩ := run_service h
    cases q with
    | credentials m q =>
      obtain ⟨t, -, rfl⟩ := Marketplace.Query.run_credentials hq
      exact Or.inr (Or.inr ⟨.keep _, .keep _, id, .keep _⟩)
    | tokens m q =>
      obtain ⟨t, -, rfl⟩ := Marketplace.Query.run_tokens hq
      exact Or.inr (Or.inr ⟨.keep _, .keep _, id, .keep _⟩)
    | sessions q =>
      obtain ⟨t, ht, rfl⟩ := Marketplace.Query.run_sessions hq
      exact Or.inr (Or.inr ⟨.keep _, .keep _, id, written_sessions ht⟩)
    | users q =>
      obtain ⟨t, ht, rfl⟩ := Marketplace.Query.run_users hq
      exact Or.inr (Or.inr ⟨written_users ht, .keep _, id, .keep _⟩)
    | enqueue k email =>
      obtain ⟨t, -, rfl⟩ := Marketplace.Query.run_enqueue hq
      exact Or.inr (Or.inr ⟨.keep _, .keep _, id, .keep _⟩)
    | commit =>
      obtain rfl := Marketplace.Query.run_commit hq
      exact Or.inl ⟨rfl, rfl, rfl⟩
    | rollback =>
      obtain rfl := Marketplace.Query.run_rollback hq
      exact Or.inr (Or.inl ⟨rfl, rfl⟩)
  | touch k idle secs now =>
    rcases run_touch h with rfl | ⟨s, hslot, -, rfl⟩
    · exact Or.inr (Or.inr ⟨.keep _, .keep _, id, .keep _⟩)
    · have hput : (⟨some (s.touched idle now), none⟩ : Slot ℕ Session) =
          (db.auth.sessions.slot k).put .auto i (s.touched idle now) := rfl
      refine Or.inr (Or.inr ⟨.keep _, .keep _, id, ?_⟩)
      rw [hput]
      refine .put (by rw [hslot]; rfl) ?_
      rw [Table.row, hslot]
      exact Lasts.some rfl
  | insertUser user =>
    rcases run_insertUser h with ⟨-, rfl⟩ | ⟨-, rfl⟩
    · exact Or.inr (Or.inr ⟨.keep _, .keep _, id, .keep _⟩)
    · refine Or.inr (Or.inr ⟨?_, .keep _, id, .keep _⟩)
      have hrow : db.auth.users.row i db.auth.users.fresh = none := by
        rw [Table.row, Table.slot_fresh]
        rfl
      rw [← Table.slot_fresh db.auth.users]
      exact .put (by rw [Table.slot_fresh]; rfl)
        ⟨rfl, hrow ▸ Lasts.none, fun _ => hnew, fun _ => hrow ▸ Lasts.none⟩
  | insertCredential k hash =>
    obtain ⟨t, rfl⟩ := run_insertCredential h
    exact Or.inr (Or.inr ⟨.keep _, .keep _, id, .keep _⟩)
  | insertIdentity identity =>
    rcases run_insertIdentity h with ⟨-, rfl⟩ | ⟨k, t, -, ht, rfl⟩
    · exact Or.inr (Or.inr ⟨.keep _, .keep _, id, .keep _⟩)
    · refine Or.inr (Or.inr ⟨.keep _, ?_, fun hu => ?_, .keep _⟩)
      · exact Table.written_of_insertFresh ht ⟨rfl, Lasts.none, fun _ => hnew⟩
      · refine hu.insertFresh ht fun g r' hg hg' => ?_
        rw [OauthIdentity.clashes, Bool.or_eq_true, decide_eq_true_eq]
        exact Or.inl (Option.some.inj (hg.trans hg'.symm))
  | touchLogin k now =>
    obtain ⟨t, ht, rfl⟩ := run_touchLogin h
    have hact : ∀ r, (Table.updating (fun identity : OauthIdentity =>
        some ((), { identity with lastLoginAt := some now })) (db.identities.row i k)).2 = some r →
        ∃ r₀, db.identities.row i k = some r₀ ∧ known r = known r₀ := by
      intro r hr
      obtain ⟨r₀, b, hr₀, he⟩ := Table.updating_cases hr
      cases he
      exact ⟨r₀, hr₀, rfl⟩
    refine Or.inr (Or.inr ⟨.keep _, Table.written_of_modify ht fun r hr => ?_, fun hu => ?_, .keep _⟩)
    · obtain ⟨r₀, hr₀, hknown⟩ := hact r hr
      rw [hr₀]
      exact ⟨rfl, Lasts.some hknown, fun hnone => absurd hnone (Option.some_ne_none _)⟩
    · refine hu.modify ht fun r g hr hg => Or.inl ?_
      obtain ⟨r₀, hr₀, hknown⟩ := hact r hr
      exact ⟨r₀, hr₀, (congrArg some (key_of_known hknown)).symm.trans hg⟩

/-! ### What a query keeps -/

theorem Writes.goes {q : Query β} {newUser : User → Prop} {new : OauthIdentity → Prop}
    (h : Writes q newUser new i db db') (hs : Federated db) :
    Goes i db db' ∧ db'.auth.users.Ordered (Lasts origin) ∧
      db'.identities.Ordered (Lasts known) ∧ db'.auth.sessions.Ordered (Lasts Session.userId) := by
  obtain ⟨hu, hgu⟩ := h.users.effect.ordered Lasts.refl Lasts.trans hs.users
    fun k u ⟨_, hA⟩ => hA.2.1
  obtain ⟨hi, hgi⟩ := h.identities.effect.ordered Lasts.refl Lasts.trans hs.identities
    fun k r ⟨_, hA⟩ => hA.2.1
  obtain ⟨ht, hgt⟩ := h.sessions.effect.ordered Lasts.refl Lasts.trans hs.sessions
    fun k s ⟨_, hA⟩ => hA
  exact ⟨⟨h.users.effect.moves, h.identities.effect.moves, h.sessions.effect.moves, hgu, hgi, hgt⟩,
    hu, hi, ht⟩

theorem Writes.federated {q : Query β} {newUser : User → Prop}
    (h : Writes q newUser (Joins i db) i db db') (hs : Federated db) : Federated db' := by
  obtain ⟨hg, hu, hi, ht⟩ := h.goes hs
  have husers : ∀ k, (db'.auth.users.slot k).committed = (db.auth.users.slot k).committed :=
    h.users.committed fun _ _ _ _ hA => hA.1
  have hidentities : ∀ l, (db'.identities.slot l).committed = (db.identities.slot l).committed :=
    h.identities.committed fun _ _ _ _ hA => hA.1
  -- whoever was making an account still is
  have hmaking : ∀ {j u}, Making j db u → Making j db' u := by
    rintro j u ⟨⟨user, hdraft⟩, hnone⟩
    rcases eq_or_ne i j with rfl | hne
    · exact ⟨h.users.draft_kept (fun _ _ _ _ hA => hA.1) hdraft, (husers u).trans hnone⟩
    · exact Making.of_other ⟨⟨user, hdraft⟩, hnone⟩ hg.users hne
  refine ⟨h.unique hs.unique, hu, hi, ht, fun k u x hk hx => ?_, fun j l r hdraft hnone hby => ?_⟩
  · rw [husers k] at hk
    exact (hs.made k u x hk hx).later hg.identitiesGrown
  · rw [hidentities l] at hnone
    rcases eq_or_ne i j with rfl | hne
    · rcases h.identities.draft hdraft with hdraft | ⟨m, -, hlast, hnew⟩
      · exact hmaking (hs.claimed i l r hdraft hnone hby)
      · rcases hrow : db.identities.row i l with _ | r₀
        · exact hmaking (hnew hrow hby)
        · -- the row that the process sees, and that is not published, is its own
          obtain ⟨_, he, hknown⟩ := hlast r₀ hrow
          cases he
          have hdraft₀ : db.identities.Draft i l r₀ := Table.draft_of_row hrow hnone
          rw [userId_of_known hknown]
          exact hmaking (hs.claimed i l r₀ hdraft₀ hnone ((linkedBy_of_known hknown).symm.trans hby))
    · exact hmaking (hs.claimed j l r ((Table.draft_iff_of_other hg.identities hne).mp hdraft) hnone
        hby)

/-- **A commit of a process that has finished its accounts keeps the invariant.** -/
theorem federated_commit (hs : Federated db) (hi : Complete i db) :
    Federated { auth := db.auth.commit i, identities := db.identities.commit i } ∧
      Goes i db { auth := db.auth.commit i, identities := db.identities.commit i } := by
  have hgrown : Table.Grown (Lasts known) db.identities (db.identities.commit i) :=
    fun l => (hs.identities l).le_commit Lasts.refl
  refine ⟨⟨hs.unique.commit, fun k => (hs.users k).commit, fun l => (hs.identities l).commit,
    fun k => (hs.sessions k).commit, fun k u x hk hx => ?_, fun j l r hdraft hnone hby => ?_⟩,
    ⟨Table.moves_commit i _, Table.moves_commit i _, Table.moves_commit i _,
      fun k => (hs.users k).le_commit Lasts.refl, hgrown,
      fun k => (hs.sessions k).le_commit Lasts.refl⟩⟩
  · rcases Table.committed_of_commit hk with hdraft | hk
    · obtain ⟨l, r, hr, hkey, huser⟩ := hi k u x hdraft hx
      exact ⟨l, r, by rw [← hr]; exact Slot.commit_committed i _, hkey, huser⟩
    · exact (hs.made k u x hk hx).later hgrown
  · have hne : i ≠ j := fun he => Table.not_draft_of_commit (he ▸ hdraft)
    have hdraft : db.identities.Draft j l r :=
      (Table.draft_iff_of_other (Table.moves_commit i _) hne).mp hdraft
    have hsame : (db.identities.slot l).commit i = db.identities.slot l :=
      Slot.commit_of_other hdraft hne.symm
    have hnone : ((db.identities.slot l).commit i).committed = none := hnone
    rw [hsame] at hnone
    exact (hs.claimed j l r hdraft hnone hby).of_other (Table.moves_commit i _) hne

theorem federated_rollback (hs : Federated db) :
    Federated { auth := db.auth.rollback i, identities := db.identities.rollback i } ∧
      Goes i db { auth := db.auth.rollback i, identities := db.identities.rollback i } := by
  have hgrown : Table.Grown (Lasts known) db.identities (db.identities.rollback i) :=
    Table.grown_rollback Lasts.refl _
  refine ⟨⟨hs.unique.rollback, fun k => (hs.users k).rollback, fun l => (hs.identities l).rollback,
    fun k => (hs.sessions k).rollback, fun k u x hk hx => ?_, fun j l r hdraft hnone hby => ?_⟩,
    ⟨Table.moves_rollback i _, Table.moves_rollback i _, Table.moves_rollback i _,
      Table.grown_rollback Lasts.refl _, hgrown, Table.grown_rollback Lasts.refl _⟩⟩
  · have hk : ((db.auth.users.slot k).rollback i).committed = some u := hk
    rw [Slot.rollback_committed] at hk
    exact (hs.made k u x hk hx).later hgrown
  · have hne : i ≠ j := fun he => Table.not_draft_of_rollback (he ▸ hdraft)
    have hdraft : db.identities.Draft j l r :=
      (Table.draft_iff_of_other (Table.moves_rollback i _) hne).mp hdraft
    have hnone : ((db.identities.slot l).rollback i).committed = none := hnone
    rw [Slot.rollback_committed] at hnone
    exact (hs.claimed j l r hdraft hnone hby).of_other (Table.moves_rollback i _) hne

/-- **What one query of a process does that is ready to run it.** -/
theorem federated_of_run {q : Query β} (hs : Federated db) (hready : Ready i db q)
    (h : q.run env i db = some (b, db')) : Federated db' ∧ Goes i db db' := by
  rcases cases_of_run h hready.2 with ⟨hq, -, rfl⟩ | ⟨-, rfl⟩ | hw
  · exact federated_commit hs (hready.1 hq)
  · exact federated_rollback hs
  · exact ⟨hw.federated hs, (hw.goes hs).1⟩

theorem writes_of_run {q : Query β} (hready : Ready i db q) (hq : q.ends = false)
    (h : q.run env i db = some (b, db')) :
    Writes q (fun _ => True) (Joins i db) i db db' := by
  rcases cases_of_run h hready.2 with ⟨-, hends, -⟩ | ⟨hends, -⟩ | hw
  · exact absurd (hq.symm.trans hends) Bool.false_ne_true
  · exact absurd (hq.symm.trans hends) Bool.false_ne_true
  · exact hw

/-- What is published, and what the process is about to publish, it sees. -/
theorem sees_of_row (hs : Federated db) (hi : Complete i db) {k : Uuid} {u : User}
    {x : Provider × Text} (hrow : db.auth.users.row i k = some u) (hx : u.firstIdentity = some x) :
    Sees i db x k := by
  rcases Slot.visible_cases i (db.auth.users.slot k) with hlock | hc
  · refine hi k u x ?_ hx
    rw [Table.Draft, hlock]
    exact congrArg (fun o => some (i, o)) hrow
  · exact sees_of_resolves hs (hs.made k u x (hc.symm.trans hrow) hx)

/-- **A process that has finished its accounts still has** after a query that makes none for an
identity. -/
theorem complete_of_run {q : Query β} (hs : Federated db) (hi : Complete i db)
    (hq : q.Inserts (fun u => u.firstIdentity = none) (Joins i db))
    (h : q.run env i db = some (b, db')) : Complete i db' := by
  intro k u x hu hx
  rcases cases_of_run h hq with ⟨-, -, rfl⟩ | ⟨-, rfl⟩ | hw
  · exact absurd hu Table.not_draft_of_commit
  · exact absurd hu Table.not_draft_of_rollback
  · have hlater : ∀ l, Lasts known (db.identities.row i l) (db'.identities.row i l) :=
      hw.identities.le_row Lasts.refl fun _ _ _ hA => hA.2.1
    rcases hw.users.draft hu with hu | ⟨m, -, hlast, hnew, -⟩
    · exact (hi k u x hu hx).later hlater
    · rcases hrow : db.auth.users.row i k with _ | u₀
      · rw [hnew hrow] at hx
        cases hx
      · obtain ⟨_, he, horigin⟩ := hlast u₀ hrow
        cases he
        have hx₀ : u₀.firstIdentity = some x := (congrArg Prod.fst horigin).symm.trans hx
        exact (sees_of_row hs hi hrow hx₀).later hlater

theorem ready_of_inserts {q : Query β} (hq : q.commits = false)
    (h : q.Inserts (fun _ => True) (Joins i db)) : Ready i db q :=
  ⟨fun hc => absurd (hq.symm.trans hc) Bool.false_ne_true, h⟩

theorem ready_insertUser (user : User) : Ready i db (.insertUser user) :=
  ready_of_inserts rfl trivial

theorem ready_insertIdentity {identity : OauthIdentity} (h : Making i db identity.userId) :
    Ready i db (.insertIdentity identity) :=
  ready_of_inserts rfl fun _ => h

/-! ### The contract -/

variable (env : Surroundings)

/-- Accounts, identities and sessions stay what they are. -/
def federationContract : Contract (accounts env) anyQuery where
  inv := Federated
  guar := Goes
  inv_tick _ h := ⟨h.unique, h.users, h.identities, h.sessions, h.made, h.claimed⟩
  rollback := by
    intro i db db' hs _ h
    have h : (Query.service .rollback).run env.toEnv i db = some ((), db') := h
    have hready : Ready i db (.service .rollback) := ready_of_inserts rfl trivial
    exact federated_of_run hs hready h

/-- The process has finished its accounts. -/
def complete (i : ℕ) : Assertion (federationContract env) i where
  holds := Complete i
  stable hne _ _ hg h := Complete.of_other h hg hne
  tick _ _ h := h

/-- The query makes no account for an identity, and no identity but on request. -/
def Query.Modest {β : Type} (q : Query β) : Prop :=
  q.Inserts (fun u => u.firstIdentity = none) fun r => r.linkedBy ≠ none

variable {env}

theorem joins_of_modest {q : Query β} (hq : q.Modest) :
    q.Inserts (fun u => u.firstIdentity = none) (Joins i db) :=
  hq.mono (fun _ h => h) fun _ h hno => absurd hno h

theorem ready_of_modest {q : Query β} (hq : q.Modest) (hi : Complete i db) : Ready i db q :=
  ⟨fun _ => hi, (joins_of_modest hq).mono (fun _ _ => trivial) fun _ h => h⟩

theorem keeps_complete {q : Query β} (hq : q.Modest) :
    (federationContract env).Keeps (complete env i) q := by
  intro db b db' hs hi _ h
  obtain ⟨hs', hg⟩ := federated_of_run hs (ready_of_modest hq hi) h
  exact ⟨hs', hg, complete_of_run hs hi (joins_of_modest hq) h⟩

end Marketplace.Accounts
