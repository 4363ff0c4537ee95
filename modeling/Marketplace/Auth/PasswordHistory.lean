import Marketplace.Auth.Footprint

/-!
# The history of a password

Three statements store a password hash: a change compares the stored hash with the
one it verified, a rehash does too, and a reset does not. Each adds an entry to the
trail of the row, so the trail lists every hash the account ever had. The invariant
of this file (`Marketplace.History`) says what that list is like: the hash that is
stored is its newest one, every compared hash was the newest one at the time, and no
hash occurs in it twice, because a hash shows the salt it was made with and a
request draws one salt.

Together these make the list a linear history of the password, whatever the order
in which the requests ran.
-/

namespace Marketplace

open ReadCommitted

/-! ### What the trail says about hashes -/

namespace CredentialEvent

/-- The hash the event stores, if it stores one. -/
def stores : CredentialEvent → Option Text
  | registered h => some h
  | changed _ _ new => some new
  | reset _ new => some new
  | rehashed _ _ new => some new
  | _ => none

/-- The hash the event found stored, if it looked. -/
def replaces : CredentialEvent → Option Text
  | changed _ old _ => some old
  | rehashed _ old _ => some old
  | _ => none

/-- The request behind the event. -/
def who : CredentialEvent → Option ℕ
  | registered _ => none
  | failed i _ => some i
  | cleared i _ _ => some i
  | changed i _ _ => some i
  | reset i _ => some i
  | rehashed i _ _ => some i

end CredentialEvent

/-- The hashes the account ever had, newest first. -/
def storedHashes (es : List CredentialEvent) : List Text := es.filterMap CredentialEvent.stores

/-- The hash that is stored once these events have happened. -/
def storedHash (es : List CredentialEvent) : Option Text := (storedHashes es).head?

/-- Every event that looked found the hash that was stored. -/
def Linear : List CredentialEvent → Prop
  | [] => True
  | e :: es => (∀ old, e.replaces = some old → storedHash es = some old) ∧ Linear es

/-- The hash was produced by the request behind the event, or by none at all. -/
def Salted (env : Env) (e : CredentialEvent) : Prop :=
  ∀ h, e.stores = some h → match e.who with
    | some i => ∃ password, h = env.hash i password
    | none => ∀ i password, h ≠ env.hash i password

/-- **The history of a credential is linear.** -/
structure History (env : Env) (c : Credential) : Prop where
  /-- The stored hash is the newest one. -/
  stored : storedHash c.trail = some c.passwordHash
  /-- Every comparison was with the hash stored at the time. -/
  linear : Linear c.trail
  /-- No hash was ever stored twice. -/
  distinct : (storedHashes c.trail).Nodup
  /-- Every hash shows who made it. -/
  salted : ∀ e ∈ c.trail, Salted env e

theorem storedHash_cons_of_none {e : CredentialEvent} {es : List CredentialEvent}
    (h : e.stores = none) : storedHash (e :: es) = storedHash es := by
  rw [storedHash, storedHashes, List.filterMap_cons_none h]
  rfl

theorem storedHashes_cons_of_some {e : CredentialEvent} {es : List CredentialEvent} {h : Text}
    (he : e.stores = some h) : storedHashes (e :: es) = h :: storedHashes es := by
  rw [storedHashes, List.filterMap_cons_some he]
  rfl

theorem generation_cons_of_none {e : CredentialEvent} {es : List CredentialEvent}
    (h : e.stores = none) : generation (e :: es) = generation es := by
  cases e with
  | failed => rfl
  | cleared => rfl
  | _ => cases h

theorem Linear.of_suffix {es fs : List CredentialEvent} (h : Linear fs) (hs : es <:+ fs) :
    Linear es := by
  obtain ⟨gs, rfl⟩ := hs
  induction gs with
  | nil => exact h
  | cons g gs ih => exact ih h.2

/-- A prefix of the history with the same stored hash has the same password. -/
theorem generation_of_suffix {es fs : List CredentialEvent} (hs : es <:+ fs)
    (hd : (storedHashes fs).Nodup) {h : Text} (hes : storedHash es = some h)
    (hfs : storedHash fs = some h) : generation fs = generation es := by
  obtain ⟨gs, rfl⟩ := hs
  induction gs with
  | nil => rfl
  | cons e gs ih =>
    rcases he : e.stores with _ | new
    · have hcons : storedHashes (e :: (gs ++ es)) = storedHashes (gs ++ es) :=
        List.filterMap_cons_none he
      rw [List.cons_append, hcons] at hd
      rw [List.cons_append, storedHash_cons_of_none he] at hfs
      rw [List.cons_append, generation_cons_of_none he]
      exact ih hd hfs
    · -- the newest hash would be one that is stored further down already
      have hcons : storedHashes (e :: (gs ++ es)) = new :: storedHashes (gs ++ es) :=
        storedHashes_cons_of_some he
      rw [List.cons_append, hcons, List.nodup_cons] at hd
      rw [List.cons_append, storedHash, hcons] at hfs
      obtain rfl := Option.some.inj hfs
      have hmem : new ∈ storedHashes es := List.mem_of_mem_head? hes
      have hmem' : new ∈ storedHashes (gs ++ es) := by
        rw [storedHashes, List.filterMap_append]
        exact List.mem_append_right _ hmem
      exact absurd hmem' hd.1

variable {env : Env} {i j : ℕ} {c : Credential}

/-- A history does not see an event that stores nothing. -/
theorem History.cons_of_none {e : CredentialEvent} {c' : Credential} (h : History env c)
    (he : e.stores = none) (hr : e.replaces = none) (hash : c'.passwordHash = c.passwordHash)
    (trail : c'.trail = e :: c.trail) : History env c' := by
  refine ⟨?_, ?_, ?_, ?_⟩
  · rw [trail, hash, storedHash_cons_of_none he]
    exact h.stored
  · rw [trail]
    exact ⟨fun old ho => absurd (hr.symm.trans ho) nofun, h.linear⟩
  · rw [trail, storedHashes, List.filterMap_cons_none he]
    exact h.distinct
  · rw [trail]
    intro f hf g hg
    rcases List.mem_cons.mp hf with rfl | hf
    · rw [he] at hg
      cases hg
    · exact h.salted f hf g hg

/-- The request has not stored a hash in this trail. -/
def Unwritten (i : ℕ) (es : List CredentialEvent) : Prop :=
  ∀ e ∈ es, e.who = some i → e.stores = none

/-- **A hash just made is not in the history**: it shows a salt that no event of the
history was made with. -/
theorem not_mem_storedHashes (hsalt : ∀ i j p q, env.hash i p = env.hash j q → i = j)
    {es : List CredentialEvent} (h : ∀ e ∈ es, Salted env e) (hi : Unwritten i es)
    (password : Text) : env.hash i password ∉ storedHashes es := by
  intro hmem
  obtain ⟨e, he, hs⟩ := List.mem_filterMap.mp hmem
  have hsalted := h e he _ hs
  rcases hw : e.who with _ | j
  · rw [hw] at hsalted
    exact hsalted i password rfl
  · rw [hw] at hsalted
    obtain ⟨q, hq⟩ := hsalted
    obtain rfl := hsalt i j password q hq
    rw [hi e he hw] at hs
    cases hs

/-- A history goes on with a hash just made. -/
theorem History.cons_of_some (hsalt : ∀ i j p q, env.hash i p = env.hash j q → i = j)
    {es : List CredentialEvent} (hlin : Linear es) (hdist : (storedHashes es).Nodup)
    (hsalted : ∀ e ∈ es, Salted env e) (hi : Unwritten i es) {e : CredentialEvent}
    {password : Text} {c' : Credential} (he : e.stores = some (env.hash i password))
    (hw : e.who = some i) (hr : ∀ old, e.replaces = some old → storedHash es = some old)
    (hash : c'.passwordHash = env.hash i password) (trail : c'.trail = e :: es) :
    History env c' := by
  have hcons : storedHashes (e :: es) = env.hash i password :: storedHashes es :=
    storedHashes_cons_of_some he
  refine ⟨?_, ?_, ?_, ?_⟩
  · rw [trail, hash, storedHash, hcons]
    rfl
  · rw [trail]
    exact ⟨hr, hlin⟩
  · rw [trail, hcons]
    exact List.nodup_cons.mpr ⟨not_mem_storedHashes hsalt hsalted hi password, hdist⟩
  · rw [trail]
    intro f hf g hg
    rcases List.mem_cons.mp hf with rfl | hf
    · rw [he] at hg
      cases hg
      rw [hw]
      exact ⟨password, rfl⟩
    · exact hsalted f hf g hg

/-- **One statement keeps the history linear**, when the hash it stores was just made by
its request. -/
theorem History.act (hsalt : ∀ i j p q, env.hash i p = env.hash j q → i = j)
    {w : Option Text} {o : Option Credential} {c' : Credential} (h : Passwords.Act i w o c')
    (ho : ∀ c, o = some c → History env c)
    (hw : ∀ new, w = some new → (∃ password, new = env.hash i password) ∧
      ∀ c, o = some c → Unwritten i c.trail) : History env c' := by
  cases h with
  | held c => exact ho c' rfl
  | failed c now => exact (ho c rfl).cons_of_none rfl rfl rfl rfl
  | cleared c why now => exact (ho c rfl).cons_of_none rfl rfl rfl rfl
  | changed c new =>
    obtain ⟨⟨password, rfl⟩, hun⟩ := hw _ rfl
    have hc := ho c rfl
    refine History.cons_of_some hsalt hc.linear hc.distinct hc.salted (hun c rfl) rfl rfl ?_ rfl rfl
    intro old hold
    cases hold
    exact hc.stored
  | rehashed c new =>
    obtain ⟨⟨password, rfl⟩, hun⟩ := hw _ rfl
    have hc := ho c rfl
    refine History.cons_of_some hsalt hc.linear hc.distinct hc.salted (hun c rfl) rfl rfl ?_ rfl rfl
    intro old hold
    cases hold
    exact hc.stored
  | reset o new =>
    obtain ⟨⟨password, rfl⟩, hun⟩ := hw _ rfl
    have hreset : ∀ old, (CredentialEvent.reset i (env.hash i password)).replaces ≠ some old :=
      fun _ => nofun
    rcases o with _ | c
    · have hnil : ∀ e ∈ ([] : List CredentialEvent), False := nofun
      have hlin : Linear [] := trivial
      exact History.cons_of_some hsalt hlin List.nodup_nil (fun e he => (hnil e he).elim)
        (fun e he => (hnil e he).elim) rfl rfl (fun old ho => absurd ho (hreset old)) rfl rfl
    · have hc := ho c rfl
      exact History.cons_of_some hsalt hc.linear hc.distinct hc.salted (hun c rfl) rfl rfl
        (fun old ho => absurd ho (hreset old)) rfl rfl

theorem Unwritten.cons {e : CredentialEvent} {es : List CredentialEvent} (h : Unwritten i es)
    (he : e.who = some i → e.stores = none) : Unwritten i (e :: es) := by
  intro f hf
  rcases List.mem_cons.mp hf with rfl | hf
  · exact he
  · exact h f hf

/-- A statement of another request, or one that stores no hash, does not write for
request `i`. -/
theorem Unwritten.act {w : Option Text} {o : Option Credential} {c' : Credential}
    (h : Passwords.Act j w o c') (hj : j ≠ i ∨ w = none)
    (ho : ∀ c, o = some c → Unwritten i c.trail) : Unwritten i c'.trail := by
  have hne : w ≠ none → j ≠ i := fun hw => hj.resolve_right hw
  cases h with
  | held c => exact ho c' rfl
  | failed c now => exact (ho c rfl).cons fun _ => rfl
  | cleared c why now => exact (ho c rfl).cons fun _ => rfl
  | changed c new => exact (ho c rfl).cons fun he => absurd (Option.some.inj he) (hne nofun)
  | rehashed c new => exact (ho c rfl).cons fun he => absurd (Option.some.inj he) (hne nofun)
  | reset o new =>
    have hnil : Unwritten i ((o.map Credential.trail).getD []) := by
      rcases o with _ | c
      · exact fun e he => nomatch he
      · exact ho c rfl
    exact hnil.cons fun he => absurd (Option.some.inj he) (hne nofun)

/-! ### The contract -/

/-- The trail of a version goes on with that of another. -/
def TrailLe (o o' : Option Credential) : Prop :=
  ∀ c, o = some c → ∃ c', o' = some c' ∧ c.trail <:+ c'.trail

theorem TrailLe.refl (o : Option Credential) : TrailLe o o := fun c hc => ⟨c, hc, List.suffix_rfl⟩

theorem TrailLe.trans (o₁ o₂ o₃ : Option Credential) (h : TrailLe o₁ o₂) (h' : TrailLe o₂ o₃) :
    TrailLe o₁ o₃ := by
  intro c hc
  obtain ⟨c₂, hc₂, hs⟩ := h c hc
  obtain ⟨c₃, hc₃, hs'⟩ := h' c₂ hc₂
  exact ⟨c₃, hc₃, hs.trans hs'⟩

theorem TrailLe.act {w : Option Text} {o : Option Credential} {c' : Credential}
    (h : Passwords.Act i w o c') : TrailLe o (some c') := by
  rintro c rfl
  exact ⟨c', rfl, h.trail_suffix⟩

/-- Every version of every credential has a linear history, which goes on with that of
the published one. -/
structure HistoryInv (env : Env) (db : Db) : Prop where
  /-- Histories are linear. -/
  holds : db.credentials.Holds fun _ => History env
  /-- They only grow. -/
  ordered : db.credentials.Ordered TrailLe

/-- The request has stored no hash anywhere. -/
def UnwrittenIn (i : ℕ) (db : Db) : Prop := db.credentials.Holds fun _ c => Unwritten i c.trail

/-- What a query does to the credentials, as far as their histories go. -/
structure HistoryStep (i : ℕ) (db db' : Db) : Prop where
  /-- Rows held by others do not move. -/
  moves : db.credentials.Moves i db'.credentials
  /-- Published histories only grow. -/
  grown : db.credentials.Grown TrailLe db'.credentials
  /-- Nothing is written in the name of others. -/
  unwritten : ∀ j, j ≠ i → UnwrittenIn j db → UnwrittenIn j db'

/-- **One query keeps all histories linear**, when the hash it stores was just made by
its request. -/
theorem HistoryInv.step (hsalt : ∀ i j p q, env.hash i p = env.hash j q → i = j)
    {w : Option Text} {db db' : Db}
    (he : Table.Effect (fun _ => Passwords.Act i w) i db.credentials db'.credentials)
    (h : HistoryInv env db) (hw : ∀ new, w = some new → ∃ password, new = env.hash i password)
    (hun : w ≠ none → UnwrittenIn i db) : HistoryInv env db' ∧ HistoryStep i db db' := by
  have hgrow := he.ordered TrailLe.refl TrailLe.trans h.ordered fun k r hA => TrailLe.act hA
  refine ⟨⟨he.holds h.holds fun k r hA => ?_, hgrow.1⟩, he.moves, hgrow.2, fun j hne hj => ?_⟩
  · refine History.act hsalt hA (fun c hc => h.holds.row hc) fun new hnew => ⟨hw new hnew, ?_⟩
    have hw' : w ≠ none := by
      rw [hnew]
      nofun
    exact fun c hc => (hun hw').row hc
  · exact he.holds hj fun k r hA => Unwritten.act hA (Or.inl hne.symm) fun c hc => hj.row hc

/-- A query that stores no hash keeps all histories linear. -/
theorem HistoryInv.of_newHash (hsalt : ∀ i j p q, env.hash i p = env.hash j q → i = j)
    {β : Type} {q : Query β} {b : β} {db db' : Db} (h : HistoryInv env db)
    (hq : q.newHash = none) (hr : Query.run env q i db = some (b, db')) :
    HistoryInv env db' ∧ HistoryStep i db db' := by
  refine h.step hsalt (Query.effects hr).credentials (fun new hnew => ?_) fun hw => absurd hq hw
  rw [hq] at hnew
  cases hnew

/-- A query that stores a hash just made, by a request that has stored none. -/
theorem HistoryInv.of_write (hsalt : ∀ i j p q, env.hash i p = env.hash j q → i = j) {β : Type}
    {q : Query β} {password : Text}
    (hq : q.newHash = some (env.hash i password)) {db db' : Db} {b : β} (hs : HistoryInv env db)
    (hun : UnwrittenIn i db) (hr : Query.run env q i db = some (b, db')) :
    HistoryInv env db' ∧ HistoryStep i db db' := by
  refine hs.step hsalt (Query.effects hr).credentials (fun new hnew => ⟨password, ?_⟩) fun _ => hun
  rw [hq] at hnew
  exact (Option.some.inj hnew).symm

variable {C : Proviso ℕ Db Query}

/-- **The contract**: histories stay linear. -/
def historyContract (hsalt : ∀ i j p q, env.hash i p = env.hash j q → i = j)
    (C : Proviso ℕ Db Query) : Contract (authService env) C where
  inv := HistoryInv env
  guar := HistoryStep
  inv_tick := fun _ h => ⟨h.holds, h.ordered⟩
  rollback := by
    intro i db db' h _ hr
    have hq : Query.rollback.newHash = none := rfl
    exact h.of_newHash hsalt hq hr

section Contract

variable (hsalt : ∀ i j p q, env.hash i p = env.hash j q → i = j)

/-- The request has stored no hash so far. -/
def unwritten (C : Proviso ℕ Db Query) (i : ℕ) : Assertion (historyContract hsalt C) i where
  holds := UnwrittenIn i
  stable := fun hne _ _ hg h => hg.unwritten _ (Ne.symm hne) h
  tick := fun _ _ h => h

/-- The event is part of the account's published history. -/
def recorded (C : Proviso ℕ Db Query) (i : ℕ) (userId : Uuid) (e : CredentialEvent) :
    Assertion (historyContract hsalt C) i where
  holds db := ∃ c, (db.credentials.slot userId).committed = some c ∧ e ∈ c.trail
  stable := by
    rintro j db db' - - - hg ⟨c, hc, he⟩
    obtain ⟨c', hc', hs⟩ := hg.grown userId c hc
    exact ⟨c', hc', hs.subset he⟩
  tick := fun _ _ h => h

/-- The event is part of the history that request `i` is about to publish. -/
def written (C : Proviso ℕ Db Query) (i : ℕ) (userId : Uuid) (e : CredentialEvent) :
    Assertion (historyContract hsalt C) i where
  holds db := ∃ c, (db.credentials.slot userId).lock = some (i, some c) ∧ e ∈ c.trail
  stable := by
    rintro j db db' hne - - hg ⟨c, hc, he⟩
    have hsame := (hg.moves userId).eq_of_held hc (Ne.symm hne)
    exact ⟨c, by rw [hsame]; exact hc, he⟩
  tick := fun _ _ h => h

end Contract

/-! ### Where runs begin -/

/-- A database at rest: no credential is held, and every password is as it was
registered, under a hash that none of the requests to come will make. -/
structure AtRest (env : Env) (db : Db) : Prop where
  /-- No row is held. -/
  unlocked : ∀ u, (db.credentials.slot u).lock = none
  /-- Every password is as it was registered. -/
  registered : ∀ u c, (db.credentials.slot u).committed = some c →
    c.trail = [.registered c.passwordHash]
  /-- Its hash is not that of a later request. -/
  fresh : ∀ u c, (db.credentials.slot u).committed = some c →
    ∀ i password, c.passwordHash ≠ env.hash i password

namespace AtRest

variable {db : Db}

theorem version (h : AtRest env db) {u : Uuid} {c : Credential}
    (hv : (db.credentials.slot u).Version c) : (db.credentials.slot u).committed = some c := by
  rcases hv with hc | ⟨j, hl⟩
  · exact hc
  · rw [h.unlocked u] at hl
    cases hl

theorem historyInv (h : AtRest env db) : HistoryInv env db := by
  refine ⟨fun u c hv => ?_, fun u j v hl => ?_⟩
  · have hc := h.version hv
    have ht := h.registered u c hc
    refine ⟨?_, ?_, ?_, ?_⟩ <;> rw [ht]
    · rfl
    · exact ⟨fun old ho => absurd ho nofun, trivial⟩
    · exact List.pairwise_singleton _ _
    · intro e he g hg
      obtain rfl := List.mem_singleton.mp he
      cases hg
      exact h.fresh u c hc
  · rw [h.unlocked u] at hl
    cases hl

theorem unwrittenIn (h : AtRest env db) (i : ℕ) : UnwrittenIn i db := by
  intro u c hv e he hw
  rw [h.registered u c (h.version hv)] at he
  obtain rfl := List.mem_singleton.mp he
  cases hw

end AtRest

theorem oneAccount_atRest : AtRest .plain oneAccount := by
  have hcommitted : ∀ u c, (oneAccount.credentials.slot u).committed = some c →
      c = firstCredential := by
    intro u c hc
    rcases eq_or_ne u 0 with rfl | hne
    · rw [oneAccount, Table.slot_put_self] at hc
      exact (Option.some.inj hc).symm
    · rw [oneAccount, Table.slot_put_of_ne hne] at hc
      cases hc
  refine ⟨fun u => ?_, fun u c hc => ?_, fun u c hc => ?_⟩
  · rcases eq_or_ne u 0 with rfl | hne
    · rfl
    · rw [oneAccount, Table.slot_put_of_ne hne]
      rfl
  · rw [hcommitted u c hc]
    rfl
  · rw [hcommitted u c hc]
    intro i password h
    cases i with
    | zero => exact absurd (List.cons.inj h).1 (by decide)
    | succ i => exact absurd (List.cons.inj h).1 (by decide)

end Marketplace
