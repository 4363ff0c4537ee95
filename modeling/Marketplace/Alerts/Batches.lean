import Marketplace.Alerts.Contract

/-!
# A batch, from its claims to its commit

What a batch knows, at each of its points, is a `Marketplace.Alerts.Holding`: the jobs it holds
are the ones it has claimed, with the published version under each of them unmarked, and the
digests it has queued are for accounts it is done with. No other process can change any of
this, so what the batch finds in its tables is still so when it commits.
-/

namespace Marketplace.Alerts

open Board ReadCommitted

variable {env : Search.Env} {site : Site} {setting : Setting} {i : ℕ} {db : Db}

/-! ### Matching does not depend on the notices -/

/-- Every version of a search, published or not, is one of the setting. -/
theorem Consistent.exists_search (h : Consistent site setting db) {k : Uuid} {s : SavedSearch}
    (hs : (db.searches.slot k).committed = some s ∨ db.searches.row i k = some s) :
    ∃ s' ∈ setting.searches, unnotified s' = unnotified s := by
  have hsame : SameSearch (setting.db.searches.slot k).committed (some s) := by
    rcases hs with hs | hs
    · rw [← hs]
      exact h.searches_kept k
    · rw [← hs]
      exact SameSearch.trans _ _ _ (h.searches_kept k)
        ((h.searches_ordered k).visible SameSearch.refl)
  obtain ⟨s', hs', he⟩ := Option.map_eq_some_iff.mp (hsame : _ = some (unnotified s))
  exact ⟨s', (Table.mem_of_slot_ofList hs').1, he⟩

/-- Every search of the setting is there, in what a process sees. -/
theorem Consistent.exists_row (h : Consistent site setting db) {s : SavedSearch}
    (hs : s ∈ setting.searches) : ∃ s' ∈ db.searches.rows i, unnotified s' = unnotified s := by
  have hslot : (setting.db.searches.slot s.id).committed = some s := by
    rw [Setting.db, Table.slot_ofList_of_mem hs]
  have hsame := SameSearch.trans _ _ _ (h.searches_kept s.id)
    ((h.searches_ordered s.id).visible (i := i) SameSearch.refl)
  rw [hslot] at hsame
  obtain ⟨s', hs', he⟩ := Option.map_eq_some_iff.mp hsame.symm
  exact ⟨s', Table.mem_rows.mpr ⟨s.id, hs'⟩, he⟩

theorem eq_of_unnotified {s s' : SavedSearch} (h : unnotified s' = unnotified s) :
    s'.id = s.id ∧ s'.userId = s.userId ∧ s'.name = s.name := by
  have hid := congrArg SavedSearch.id h
  have huser := congrArg SavedSearch.userId h
  have hname := congrArg SavedSearch.name h
  exact ⟨hid, huser, hname⟩

/-- **What a search is matched with** does not depend on the time of its last notice. -/
theorem matches_of_unnotified {jobs jobs' : List Job} {searches searches' : List SavedSearch}
    {accounts : List Account} {ids ids' : List Uuid} {a : AlertMatch}
    (h : a ∈ matchesForJobs env jobs searches accounts ids)
    (hjobs : ∀ j ∈ jobs, j.id ∈ ids → j.id = a.jobId → j ∈ jobs' ∧ j.id ∈ ids')
    (hsearches : ∀ s ∈ searches, ∃ s' ∈ searches', unnotified s' = unnotified s) :
    a ∈ matchesForJobs env jobs' searches' accounts ids' := by
  obtain ⟨j, hj, s, hs, u, hu, hjoins, halert, hcons, rfl⟩ := mem_matchesForJobs.mp h
  obtain ⟨s', hs', hsame⟩ := hsearches s hs
  simp only [considered, Sql.Truth.holds_and, Bool.and_eq_true] at hcons
  obtain ⟨hid, hrest⟩ := hcons
  obtain ⟨hj', hid'⟩ := hjobs j hj (by simpa [Sql.eqAny] using hid) rfl
  obtain ⟨hsid, huser, hname⟩ := eq_of_unnotified hsame
  refine mem_matchesForJobs.mpr ⟨j, hj', s', hs', u, hu, ?_, ?_, ?_, ?_⟩
  · change (joins env (unnotified s') j).holds = true
    rw [hsame]
    exact hjoins
  · rw [alertable, huser]
    exact halert
  · simp only [considered, Sql.Truth.holds_and, Bool.and_eq_true, huser]
    exact ⟨by simpa [Sql.eqAny] using hid', hrest⟩
  · simp only [alertMatch, hsid, huser, hname]

/-- What should alert about one job, by the searches of the setting. -/
def Due (env : Search.Env) (setting : Setting) (k : Uuid) (p : Posting) (a : AlertMatch) : Prop :=
  a ∈ matchesForJobs env [p.toJob] setting.searches setting.accounts [k]

/-- What should alert about a job, by what is published, should by the setting. -/
theorem Consistent.due_of_mem (h : Consistent site setting db) {k : Uuid} {p : Posting}
    (hp : (db.jobs.slot k).committed = some p) {a : AlertMatch} (ha : a ∈ alertsOf env db k) :
    Due env setting k p a := by
  rw [alertsOf, h.accounts] at ha
  refine matches_of_unnotified ha (fun j hj hid _ => ⟨?_, hid⟩) fun s hs => ?_
  · obtain ⟨q, hq, rfl⟩ := List.mem_map.mp hj
    obtain ⟨l, hl⟩ := Table.mem_published.mp hq
    have hkey : q.id = l := (h.jobs.committed hl).1
    obtain rfl : l = k := hkey.symm.trans (List.mem_singleton.mp hid)
    obtain rfl : q = p := Option.some.inj (hl.symm.trans hp)
    exact List.mem_singleton.mpr rfl
  · obtain ⟨l, hl⟩ := Table.mem_published.mp hs
    exact h.exists_search (i := 0) (Or.inl hl)

/-- **What a batch finds**: everything that should alert about a job it looks for. -/
theorem Consistent.mem_matchesFor (h : Consistent site setting db) {ids : List Uuid} {k : Uuid}
    {p : Posting} (hk : k ∈ ids) (hp : db.jobs.row i k = some p) {a : AlertMatch}
    (ha : Due env setting k p a) : a ∈ matchesFor env ids i db := by
  rw [matchesFor, h.accounts]
  refine matches_of_unnotified ha (fun j hj hid _ => ⟨?_, ?_⟩) fun s hs => h.exists_row hs
  · rw [List.mem_singleton.mp hj]
    exact List.mem_map_of_mem (Table.mem_rows.mpr ⟨k, hp⟩)
  · rw [List.mem_singleton.mp hid]
    exact hk

/-- What should alert about a job by the setting, should by what is published. -/
theorem Consistent.mem_alertsOf (h : Consistent site setting db) {k : Uuid} {p : Posting}
    (hp : (db.jobs.slot k).committed = some p) {a : AlertMatch} (ha : Due env setting k p a) :
    a ∈ alertsOf env db k := by
  rw [alertsOf, h.accounts]
  refine matches_of_unnotified ha (fun j hj hid _ => ⟨?_, hid⟩) fun s hs => ?_
  · rw [List.mem_singleton.mp hj]
    exact List.mem_map_of_mem (Table.mem_published.mpr ⟨k, hp⟩)
  · have hsame := h.searches_kept s.id
    rw [Setting.db, Table.slot_ofList_of_mem hs] at hsame
    obtain ⟨s', hs', he⟩ := Option.map_eq_some_iff.mp hsame.symm
    exact ⟨s', Table.mem_published.mpr ⟨s.id, hs'⟩, he⟩

/-- What a batch finds about a job that it sees should alert about it. -/
theorem Consistent.due_of_found (h : Consistent site setting db) {ids : List Uuid} {p : Posting}
    {a : AlertMatch} (hp : db.jobs.row i a.jobId = some p) (ha : a ∈ matchesFor env ids i db) :
    Due env setting a.jobId p a := by
  rw [matchesFor, h.accounts] at ha
  refine matches_of_unnotified ha (fun j hj _ hjob => ?_) fun s hs => ?_
  · obtain ⟨q, hq, rfl⟩ := List.mem_map.mp hj
    obtain ⟨l, hl⟩ := Table.mem_rows.mp hq
    have hkey : q.id = l := (h.jobs.row hl).1
    obtain rfl : l = a.jobId := hkey.symm.trans hjob
    obtain rfl : q = p := Option.some.inj (hl.symm.trans hp)
    exact ⟨List.mem_singleton.mpr rfl, List.mem_singleton.mpr hjob⟩
  · obtain ⟨l, hl⟩ := Table.mem_rows.mp hs
    exact h.exists_search (Or.inr hl)

/-- What is matched is about a job that was looked for. -/
theorem job_mem_of_matches {jobs : List Job} {searches : List SavedSearch}
    {accounts : List Account} {ids : List Uuid} {a : AlertMatch}
    (h : a ∈ matchesForJobs env jobs searches accounts ids) : a.jobId ∈ ids := by
  obtain ⟨j, -, s, -, u, -, -, -, hcons, rfl⟩ := mem_matchesForJobs.mp h
  simp only [considered, Sql.Truth.holds_and, Bool.and_eq_true] at hcons
  show j.id ∈ ids
  simpa [Sql.eqAny] using hcons.1

/-- What should alert about a job is about that job. -/
theorem Due.job {k : Uuid} {p : Posting} {a : AlertMatch} (h : Due env setting k p a) :
    a.jobId = k :=
  List.mem_singleton.mp (job_mem_of_matches h)

/-- What a batch finds is about a job it looks for, and a search of an account. -/
structure Found (setting : Setting) (ids : List Uuid) (a : AlertMatch) : Prop where
  job : a.jobId ∈ ids
  search : ∃ s ∈ setting.searches, s.id = a.searchId ∧ s.userId = a.userId

theorem Consistent.found (h : Consistent site setting db) {ids : List Uuid} {a : AlertMatch}
    (ha : a ∈ matchesFor env ids i db) : Found setting ids a := by
  have hjob : a.jobId ∈ ids := job_mem_of_matches ha
  obtain ⟨j, -, s, hs, u, -, -, -, -, rfl⟩ := mem_matchesForJobs.mp ha
  obtain ⟨k, hk⟩ := Table.mem_rows.mp hs
  obtain ⟨s', hs', hsame⟩ := h.exists_search (Or.inr hk)
  obtain ⟨hsid, huser, -⟩ := eq_of_unnotified hsame
  exact ⟨hjob, s', hs', hsid, huser⟩

/-! ### What a batch knows -/

/-- **What a batch knows**: the jobs it holds are `ids`, of which those in `left` are not marked
yet and satisfy `R`; and it has queued a digest for each of `sent`, for accounts in `users`. -/
structure Holding (i : ℕ) (ids left : List Uuid) (sent : List AlertMatch) (users : List Uuid)
    (R : Uuid → Posting → Prop) (db : Db) : Prop where
  held : ∀ k v, (db.jobs.slot k).lock = some (i, v) → k ∈ ids
  unmarked : ∀ k ∈ left, ∃ p, db.jobs.slot k = ⟨some p, some (i, some p)⟩ ∧ p.marked = false ∧
    R k p
  marked : ∀ k ∈ ids, k ∉ left → ∃ p now, db.jobs.slot k = ⟨some p, some (i, some (p.mark now))⟩ ∧
    p.marked = false ∧ R k p
  queued : ∀ a ∈ sent, ∃ g D, (db.outbox.slot g).lock = some (i, some D) ∧ a ∈ D.alerts
  served : ∀ g v, (db.outbox.slot g).lock = some (i, v) → ∃ D, v = some D ∧ D.userId ∈ users

variable (env site setting i) in
/-- Nobody else changes it. -/
def holding (ids left : List Uuid) (sent : List AlertMatch) (users : List Uuid)
    (R : Uuid → Posting → Prop) : Assertion (contract env site setting) i where
  holds := Holding i ids left sent users R
  stable := by
    intro j db db' hne _ _ hg h
    have hslot : ∀ {k o v}, db.jobs.slot k = ⟨o, some (i, v)⟩ →
        db'.jobs.slot k = ⟨o, some (i, v)⟩ := by
      intro k o v hk
      exact ((hg.jobs k).eq_of_held (congrArg Slot.lock hk) hne.symm).trans hk
    refine ⟨fun k v hlock => h.held k v ((hg.jobs.lock_iff hne).mp hlock), fun k hk => ?_,
      fun k hk hnot => ?_, fun a ha => ?_, fun g v hlock => h.served g v
        ((hg.outbox.lock_iff hne).mp hlock)⟩
    · obtain ⟨p, hp, hrest⟩ := h.unmarked k hk
      exact ⟨p, hslot hp, hrest⟩
    · obtain ⟨p, now, hp, hrest⟩ := h.marked k hk hnot
      exact ⟨p, now, hslot hp, hrest⟩
    · obtain ⟨g, D, hlock, hmem⟩ := h.queued a ha
      exact ⟨g, D, (hg.outbox.lock_iff hne).mpr hlock, hmem⟩
  tick _ _ h := ⟨h.held, h.unmarked, h.marked, h.queued, h.served⟩

/-- **How the matches of a batch are shared out**: a digest that it has queued is made of those of
its account, and no account has two. -/
structure Sharing (i : ℕ) (found : List AlertMatch) (db : Db) : Prop where
  alerts : ∀ g D, (db.outbox.slot g).lock = some (i, some D) →
    ∀ a, a ∈ D.alerts ↔ a ∈ found ∧ a.userId = D.userId
  one : ∀ g g' D D', (db.outbox.slot g).lock = some (i, some D) →
    (db.outbox.slot g').lock = some (i, some D') → D.userId = D'.userId → g = g'

variable (env site setting i) in
/-- Nobody else queues a digest for the batch. -/
def sharing (found : List AlertMatch) : Assertion (contract env site setting) i where
  holds := Sharing i found
  stable := by
    intro j db db' hne _ _ hg h
    refine ⟨fun g D hlock => h.alerts g D ((hg.outbox.lock_iff hne).mp hlock), ?_⟩
    intro g g' D D' hlock hlock'
    exact h.one g g' D D' ((hg.outbox.lock_iff hne).mp hlock) ((hg.outbox.lock_iff hne).mp hlock')
  tick _ _ h := ⟨h.alerts, h.one⟩

/-- The query leaves the outbox as it is. -/
def Query.sparesOutbox {β : Type} : Query β → Bool
  | .enqueue _ _ => false
  | .commit => false
  | .rollback => false
  | _ => true

/-- A query that leaves the outbox as it is leaves the matches shared out. -/
theorem Sharing.run {found : List AlertMatch} {β : Type} {q : Query β} {b : β} {db' : Db}
    (hq : q.sparesOutbox = true) (hr : q.run i db = some (b, db')) (h : Sharing i found db) :
    Sharing i found db' := by
  cases q with
  | enqueue k digest => cases hq
  | commit => cases hq
  | rollback => cases hq
  | _ =>
    obtain ⟨⟨b', t⟩, -, he⟩ := Option.map_eq_some_iff.mp hr
    cases he
    exact ⟨h.alerts, h.one⟩

/-! ### Claiming -/

variable {ids left users : List Uuid} {sent : List AlertMatch} {R : Uuid → Posting → Prop}
  {k g : Uuid}

variable (env site setting i) in
/-- What is known when `bs` have been claimed, and `ks` have not been tried yet. -/
def claiming (bs ks : List Uuid) : Assertion (contract env site setting) i :=
  (Assertion.fact (bs ++ ks).Nodup).and (holding env site setting i bs bs [] [] fun _ _ => True)

/-- A job that the batch has just locked as it found it. -/
theorem Holding.claimed (h : Holding i ids ids [] [] R db) {p : Posting}
    (hrow : db.jobs.row i k = some p) (hp : p.marked = false) (hR : R k p) :
    Holding i (ids ++ [k]) (ids ++ [k]) [] [] R
      { db with jobs := db.jobs.put k ((db.jobs.slot k).put .tx i p) } := by
  -- the version the batch sees is the published one
  have hcommitted : (db.jobs.slot k).committed = some p := by
    rcases Slot.visible_cases i (db.jobs.slot k) with hlock | hsame
    · obtain ⟨q, hslot, -⟩ := h.unmarked k (h.held k _ hlock)
      rw [Table.row, hslot] at hrow
      have hq : some q = some p := by simpa [Slot.visible] using hrow
      rw [hslot, ← hq]
    · exact hsame.symm.trans hrow
  have hput : (db.jobs.put k ((db.jobs.slot k).put .tx i p)).slot k =
      ⟨some p, some (i, some p)⟩ := by
    rw [Table.slot_put_self]
    change Slot.mk (db.jobs.slot k).committed _ = _
    rw [hcommitted]
  refine ⟨fun l v hlock => ?_, fun l hl => ?_, fun l hl hnot => absurd hl hnot,
    fun a ha => absurd ha List.not_mem_nil, h.served⟩
  · rcases eq_or_ne l k with rfl | hne
    · simp
    · change ((db.jobs.put k _).slot l).lock = _ at hlock
      rw [Table.slot_put_of_ne hne] at hlock
      exact List.mem_append_left _ (h.held l v hlock)
  · rcases eq_or_ne l k with rfl | hne
    · exact ⟨p, hput, hp, hR⟩
    · have hl : l ∈ ids := by simpa [hne] using hl
      obtain ⟨q, hq, hrest⟩ := h.unmarked l hl
      exact ⟨q, (Table.slot_put_of_ne hne).trans hq, hrest⟩

theorem safe_claim (bs : List Uuid) (k : Uuid) (ks : List Uuid) :
    Safe (fun b => claiming env site setting i (bs ++ b.toList) ks) (claim k)
      (claiming env site setting i bs (k :: ks)) := by
  refine Safe.query (fun held : Option Unit => claiming env site setting i
    (bs ++ (held.map fun _ => k).toList) ks) ?_ fun held => Safe.ret fun _ _ h => h
  rintro db b db' hinv ⟨hnodup, h⟩ - hr
  obtain ⟨⟨held, t⟩, ht, he⟩ := Option.map_eq_some_iff.mp hr
  cases he
  have hnone : (bs ++ ks).Nodup := hnodup.sublist (by simp)
  have hskip : Consistent site setting db ∧ Guaranteed env i db db ∧
      (claiming env site setting i (bs ++ []) ks).holds db := by
    refine ⟨hinv, ⟨Table.Moves.refl i _, Table.Moves.refl i _, fun _ => Lasting.refl _,
      fun _ => Kept.refl _, announces_of_committed fun _ => rfl⟩, ?_⟩
    rw [List.append_nil]
    exact ⟨hnone, h⟩
  rcases Table.skipLocked_cases ht with ht | ⟨rfl, rfl⟩
  · obtain ⟨-, hheld, ⟨hnothing, rfl⟩ | ⟨p, hput, rfl⟩⟩ := Table.modify_cases ht
    · have hheld : held = none := by
        rcases held with _ | u
        · rfl
        · obtain ⟨q, q', -, -, hput⟩ := Table.updating_answer hheld.symm
          rw [hput] at hnothing
          cases hnothing
      rw [hheld]
      exact hskip
    · obtain ⟨q, u, hrow, hq⟩ := Table.updating_cases hput
      obtain ⟨hfree, rfl⟩ : q.alertsMatchedAt = none ∧ q = p := by
        rw [Posting.claim] at hq
        split at hq
        · cases hq
          exact ⟨‹_›, rfl⟩
        · cases hq
      have hheld : held = some () := by
        rw [hheld, hrow, Table.updating, hq]
      have hlasting : Lasting (db.jobs.row i k) (some q) := hrow ▸ Lasting.refl _
      obtain ⟨hinv', hg⟩ := hinv.modify_job ht fun r hr => by
        obtain rfl : q = r := Option.some.inj (hput.symm.trans hr)
        exact ⟨hinv.jobs.row hrow, hlasting⟩
      refine ⟨hinv', hg, ?_⟩
      rw [hheld]
      exact ⟨by simpa using hnodup, h.claimed hrow (by simp [Posting.marked, hfree]) trivial⟩
  · exact hskip

/-! ### Queueing -/

theorem Holding.enqueued (h : Holding i ids ids sent users R db) {t : Table ℕ Uuid Outgoing}
    {D : Outgoing} (hr : db.outbox.modify .tx i g (Table.inserting D) = some (true, t)) :
    Holding i ids ids (sent ++ D.alerts) (users ++ [D.userId]) R { db with outbox := t } := by
  have hinserted : (Table.inserting D (db.outbox.row i g)).2 = some D := by
    obtain ⟨-, htrue, -⟩ := Table.modify_cases hr
    rcases hrow : db.outbox.row i g with _ | D'
    · rfl
    · rw [hrow] at htrue
      cases htrue
  have hslot : (t.slot g).lock = some (i, some D) := by
    rw [Table.slot_modify hr hinserted]
    rfl
  refine ⟨h.held, h.unmarked, h.marked, fun a ha => ?_, fun g' v hlock => ?_⟩
  · rcases List.mem_append.mp ha with ha | ha
    · obtain ⟨g', D', hlock, hmem⟩ := h.queued a ha
      have hne : g' ≠ g := by
        -- an identifier that is taken is not inserted
        rintro rfl
        have hrow : db.outbox.row i g' = some D' := Slot.visible_of_held hlock
        rw [hrow] at hinserted
        cases hinserted
      refine ⟨g', D', ?_, hmem⟩
      change (t.slot g').lock = _
      rw [Table.slot_modify_of_ne hr hne]
      exact hlock
    · exact ⟨g, D, hslot, ha⟩
  · rcases Table.lock_modify hr hlock with hlock | ⟨-, D', hput, rfl⟩
    · obtain ⟨D', hv, huser⟩ := h.served g' v hlock
      exact ⟨D', hv, List.mem_append_left _ huser⟩
    · obtain rfl : D = D' := Option.some.inj (hinserted.symm.trans hput)
      exact ⟨D, rfl, by simp⟩

/-- The lists of matches that remain to be sent, each of them an account's. -/
def Shares (setting : Setting) (ids users : List Uuid) (rest : List (Uuid × List AlertMatch)) :
    Prop :=
  (users ++ rest.map Prod.fst).Nodup ∧
    ∀ x ∈ rest, ∀ a ∈ x.2, Found setting ids a ∧ a.userId = x.1

/-- A digest for an account that the batch has queued none for. -/
theorem Sharing.enqueued {found : List AlertMatch} (h : Sharing i found db)
    {t : Table ℕ Uuid Outgoing} {D : Outgoing}
    (hr : db.outbox.modify .tx i g (Table.inserting D) = some (true, t))
    (hD : ∀ a, a ∈ D.alerts ↔ a ∈ found ∧ a.userId = D.userId)
    (hother : ∀ g' D', (db.outbox.slot g').lock = some (i, some D') → D'.userId ≠ D.userId) :
    Sharing i found { db with outbox := t } := by
  have hold : ∀ g' D', (t.slot g').lock = some (i, some D') →
      (db.outbox.slot g').lock = some (i, some D') ∨ g' = g ∧ D' = D := by
    intro g' D' hlock
    rcases Table.lock_modify hr hlock with hlock | ⟨rfl, r, hput, he⟩
    · exact Or.inl hlock
    · obtain ⟨-, rfl⟩ := Table.inserting_cases hput
      exact Or.inr ⟨rfl, Option.some.inj he⟩
  refine ⟨fun g' D' hlock => ?_, fun g₁ g₂ D₁ D₂ hlock₁ hlock₂ huser => ?_⟩
  · rcases hold g' D' hlock with hlock | ⟨-, rfl⟩
    · exact h.alerts g' D' hlock
    · exact hD
  · rcases hold g₁ D₁ hlock₁ with hold₁ | ⟨rfl, rfl⟩ <;>
      rcases hold g₂ D₂ hlock₂ with hold₂ | ⟨rfl, rfl⟩
    · exact h.one g₁ g₂ D₁ D₂ hold₁ hold₂ huser
    · exact absurd huser (hother g₁ D₁ hold₁)
    · exact absurd huser.symm (hother g₂ D₂ hold₂)
    · rfl

/-- **Queueing the digests of a batch.** -/
theorem safe_enqueueEach {newId : ℕ → Uuid} {jobs : List AlertJob} {n : ℕ}
    {found : List AlertMatch} {rest : List (Uuid × List AlertMatch)}
    (hshares : Shares setting ids users rest)
    (hfound : ∀ x ∈ rest, ∀ a, a ∈ x.2 ↔ a ∈ found ∧ a.userId = x.1) :
    Safe (Assertion.onOk (fun _ => (holding env site setting i ids ids
        (sent ++ rest.flatMap Prod.snd) (users ++ rest.map Prod.fst) R).and
          (sharing env site setting i found)) fun _ => .any)
      (enqueueEach site newId jobs n rest).run
      ((holding env site setting i ids ids sent users R).and (sharing env site setting i found)) := by
  induction rest generalizing n sent users with
  | nil => exact fun _ _ h => by simpa [Assertion.onOk] using h
  | cons x rest ih =>
    obtain ⟨userId, alerts⟩ := x
    obtain ⟨hnodup, hrest⟩ := hshares
    have hnext : Shares setting ids (users ++ [userId]) rest :=
      ⟨by simpa using hnodup, fun x hx => hrest x (List.mem_cons_of_mem _ hx)⟩
    have hnew : userId ∉ users := by
      rw [List.nodup_append] at hnodup
      exact fun hmem => hnodup.2.2 userId hmem userId (List.mem_cons_self) rfl
    refine Safe.query_andThen (fun inserted => if inserted then
      (holding env site setting i ids ids (sent ++ alerts) (users ++ [userId]) R).and
        (sharing env site setting i found) else .any) ?_ ?_
    · rintro db inserted db' hinv ⟨h, hsharing⟩ _ hr
      obtain ⟨⟨inserted, t⟩, ht, he⟩ := Option.map_eq_some_iff.mp hr
      cases he
      have hD : Rendered site setting (outgoing site jobs userId alerts) := by
        refine ⟨⟨jobs, rfl⟩, fun a ha => ?_, fun a ha => ?_⟩
        · exact (hrest _ List.mem_cons_self a ha).2
        · exact (hrest _ List.mem_cons_self a ha).1.search
      have hclaimed : ∀ a ∈ alerts, Claimed i a.jobId db := by
        intro a ha
        obtain ⟨p, hslot, hp, -⟩ := h.unmarked a.jobId (hrest _ List.mem_cons_self a ha).1.job
        exact ⟨p, p, hslot, hp⟩
      have hother : ∀ g D, (db.outbox.slot g).lock = some (i, some D) → D.userId ≠ userId := by
        intro g D hlock
        obtain ⟨D', hv, huser⟩ := h.served g _ hlock
        obtain rfl : D = D' := Option.some.inj hv
        exact fun heq => hnew (heq ▸ huser)
      obtain ⟨hinv', hg⟩ := hinv.enqueue ht hD hclaimed hother
      refine ⟨hinv', hg, ?_⟩
      cases inserted with
      | false => trivial
      | true => exact ⟨h.enqueued ht, hsharing.enqueued ht (hfound _ List.mem_cons_self) hother⟩
    · intro inserted
      cases inserted with
      | false => exact fun _ _ _ => trivial
      | true =>
        refine (ih hnext (fun x hx => hfound x (List.mem_cons_of_mem _ hx)) (n := n + 1)).conseq
          (fun _ _ h => h) fun b db hinv h => ?_
        cases b with
        | ok u => simpa [Assertion.onOk] using h
        | error e => trivial

/-! ### Recording notices, and marking -/

theorem keeps_touch {now : Instant} : (contract env site setting).Keeps
    (holding env site setting i ids left sent users R) (.touch k now) := by
  intro db b db' hinv h _ hr
  obtain ⟨⟨b', t⟩, ht, he⟩ := Option.map_eq_some_iff.mp hr
  cases he
  obtain ⟨hinv', hg⟩ := hinv.touch ht
  exact ⟨hinv', hg, h.held, h.unmarked, h.marked, h.queued, h.served⟩

theorem Holding.mark_next {now : Instant} (h : Holding i ids (k :: left) sent users R db)
    (hk : k ∉ left) {p : Posting} (hslot : db.jobs.slot k = ⟨some p, some (i, some p)⟩)
    (hp : p.marked = false) (hR : R k p) :
    Holding i ids left sent users R
      { db with jobs := db.jobs.put k ((db.jobs.slot k).put .tx i (p.mark now)) } := by
  have hother : ∀ l, l ≠ k →
      (db.jobs.put k ((db.jobs.slot k).put .tx i (p.mark now))).slot l = db.jobs.slot l :=
    fun l hne => Table.slot_put_of_ne hne
  have hput : (db.jobs.put k ((db.jobs.slot k).put .tx i (p.mark now))).slot k =
      ⟨some p, some (i, some (p.mark now))⟩ := by
    rw [Table.slot_put_self, hslot]
    rfl
  refine ⟨fun l v hlock => ?_, fun l hl => ?_, fun l hl hnot => ?_, h.queued, h.served⟩
  · rcases eq_or_ne l k with rfl | hne
    · exact h.held l _ (congrArg Slot.lock hslot)
    · exact h.held l v ((congrArg Slot.lock (hother l hne)).symm.trans hlock)
  · have hne : l ≠ k := fun he => hk (he ▸ hl)
    obtain ⟨q, hq, hrest⟩ := h.unmarked l (List.mem_cons_of_mem _ hl)
    exact ⟨q, (hother l hne).trans hq, hrest⟩
  · rcases eq_or_ne l k with rfl | hne
    · exact ⟨p, now, hput, hp, hR⟩
    · obtain ⟨q, now', hq, hrest⟩ := h.marked l hl (by simp [hne, hnot])
      exact ⟨q, now', (hother l hne).trans hq, hrest⟩

/-- **Marking the jobs of a batch**, one after the other. -/
theorem safe_mark {now : Instant} (k : Uuid) (ks : List Uuid) :
    Safe (fun _ => (Assertion.fact ks.Nodup).and
        (holding env site setting i ids ks sent users R))
      (Prog.query (.mark k now) fun hit => .ret hit.isSome)
      ((Assertion.fact (k :: ks).Nodup).and
        (holding env site setting i ids (k :: ks) sent users R)) := by
  refine Safe.query (fun _ : Option Unit => (Assertion.fact ks.Nodup).and
    (holding env site setting i ids ks sent users R)) ?_ fun _ => Safe.ret fun _ _ h => h
  rintro db b db' hinv ⟨hnodup, h⟩ - hr
  obtain ⟨⟨b', t⟩, ht, he⟩ := Option.map_eq_some_iff.mp hr
  cases he
  obtain ⟨hk, hks⟩ := List.nodup_cons.mp hnodup
  obtain ⟨p, hslot, hp, hR⟩ := h.unmarked k List.mem_cons_self
  have hrow : db.jobs.row i k = some p := by
    rw [Table.row, hslot]
    simp [Slot.visible]
  have hnone : p.alertsMatchedAt = none := by simpa [Posting.marked] using hp
  have hmarks : p.marks = [] := p.marks_iff.mpr hnone
  obtain ⟨-, -, ⟨hnothing, -⟩ | ⟨r, hput, rfl⟩⟩ := Table.modify_cases ht
  · rw [hrow] at hnothing
    cases hnothing
  · obtain rfl : p.mark now = r := by
      rw [hrow] at hput
      exact Option.some.inj hput
    obtain ⟨hinv', hg⟩ := hinv.modify_job ht fun r hr => by
      obtain rfl : p.mark now = r := Option.some.inj (hput.symm.trans hr)
      refine ⟨⟨(hinv.jobs.row hrow).1, by simp [Posting.mark, hmarks]⟩, ?_⟩
      rw [hrow]
      rintro q he
      obtain rfl := Option.some.inj he
      exact ⟨p.mark now, rfl, fun hmarked => absurd hmarked (by simp [hp])⟩
    exact ⟨hinv', hg, hks, h.mark_next hk hslot hp hR⟩

/-! ### The end of a batch -/

variable (env site setting i) in
/-- The process holds nothing. -/
def idle : Assertion (contract env site setting) i :=
  holding env site setting i [] [] [] [] fun _ _ => True

/-- A process that holds nothing. -/
theorem holds_idle (hjobs : ∀ k v, (db.jobs.slot k).lock ≠ some (i, v))
    (houtbox : ∀ g v, (db.outbox.slot g).lock ≠ some (i, v)) :
    (idle env site setting i).holds db :=
  ⟨fun k v hlock => absurd hlock (hjobs k v), fun _ hk => absurd hk List.not_mem_nil,
    fun _ hk => absurd hk List.not_mem_nil, fun _ ha => absurd ha List.not_mem_nil,
    fun g v hlock => absurd hlock (houtbox g v)⟩

theorem idle_commit : (idle env site setting i).holds (db.commit i) :=
  holds_idle (fun _ _ hlock => (Slot.lock_of_commit hlock).1 rfl)
    fun _ _ hlock => (Slot.lock_of_commit hlock).1 rfl

theorem idle_rollback : (idle env site setting i).holds (db.rollback i) :=
  holds_idle (fun _ _ hlock => (Slot.lock_of_rollback hlock).1 rfl)
    fun _ _ hlock => (Slot.lock_of_rollback hlock).1 rfl

/-- The jobs that a commit of the batch marks are those it holds. -/
theorem Holding.published (h : Holding i ids [] sent users R db) (hnot : ¬ Marked db k)
    (hmarked : Marked (db.commit i) k) :
    ∃ p now, db.jobs.slot k = ⟨some p, some (i, some (p.mark now))⟩ ∧ p.marked = false ∧ R k p := by
  obtain ⟨p, hp, hpmarked⟩ := hmarked
  have hvisible : (db.jobs.slot k).visible i = some p := by
    rw [← Slot.commit_committed]
    exact hp
  rcases Slot.visible_cases i (db.jobs.slot k) with hlock | hsame
  · exact h.marked k (h.held k _ hlock) List.not_mem_nil
  · exact absurd ⟨p, hsame.symm.trans hvisible, hpmarked⟩ hnot

/-- **A batch that has queued all that is due, and marked its jobs, may commit.** -/
theorem Holding.commit (h : Holding i ids [] sent users R db) (hinv : Consistent site setting db)
    (hR : ∀ k p, R k p → ∀ a, Due env setting k p a → a ∈ sent) :
    Consistent site setting (db.commit i) ∧ Guaranteed env i db (db.commit i) := by
  refine hinv.commit (fun g D hD a ha => ?_) fun k hnot hmarked => ?_
  · obtain ⟨p, p', hslot, -⟩ := hinv.pending g i D hD a ha
    have hid : a.jobId ∈ ids := h.held _ _ (congrArg Slot.lock hslot)
    obtain ⟨q, now, hq, -⟩ := h.marked _ hid List.not_mem_nil
    exact ⟨q.mark now, congrArg Slot.lock hq, rfl⟩
  · obtain ⟨q, now, hq, -, hdue⟩ := h.published hnot hmarked
    have hcommitted : (db.jobs.slot k).committed = some q := congrArg Slot.committed hq
    refine ⟨q, q.mark now, now, hq, rfl, ?_, fun a ha => ?_⟩
    · change ((db.jobs.slot k).commit i).committed = _
      rw [Slot.commit_of_held (congrArg Slot.lock hq)]
    · obtain ⟨g, D, hD, hmem⟩ := h.queued a (hR k q hdue a (hinv.due_of_mem hcommitted ha))
      refine ⟨g, D, hD, hmem, ?_⟩
      change ((db.outbox.slot g).commit i).committed = _
      rw [Slot.commit_of_held hD]

/-- **A batch publishes one digest for each account**, when what it found is exactly what is due
about the jobs it holds. -/
theorem Holding.oneEach (h : Holding i ids [] sent users R db) (hinv : Consistent site setting db)
    (hsharing : Sharing i sent db)
    (hR : ∀ k p, R k p → ∀ a, Due env setting k p a ↔ a ∈ sent ∧ a.jobId = k) :
    OneEach env db (db.commit i) := by
  -- what the commit publishes is what the batch has queued
  have hpending : ∀ g D, Issued db (db.commit i) g D →
      (db.outbox.slot g).lock = some (i, some D) := by
    rintro g D ⟨hnone, hD⟩
    have hvisible : (db.outbox.slot g).visible i = some D := by
      rw [← Slot.commit_committed]
      exact hD
    rcases Slot.visible_cases i (db.outbox.slot g) with hlock | hsame
    · rw [← hvisible]
      exact hlock
    · rw [hsame, hnone] at hvisible
      cases hvisible
  refine ⟨fun g g' D D' hD hD' => hsharing.one g g' D D' (hpending g D hD) (hpending g' D' hD'),
    fun g D hD a => ⟨fun ha => ?_, fun ⟨huser, hnot, hmarked, ha⟩ => ?_⟩⟩
  · obtain ⟨hsent, huser⟩ := (hsharing.alerts g D (hpending g D hD) a).mp ha
    obtain ⟨p, p', hslot, -⟩ := hinv.pending g i D (hpending g D hD) a ha
    have hid : a.jobId ∈ ids := h.held _ _ (congrArg Slot.lock hslot)
    obtain ⟨q, now, hq, hunmarked, hdue⟩ := h.marked _ hid List.not_mem_nil
    have hcommitted : (db.jobs.slot a.jobId).committed = some q := congrArg Slot.committed hq
    refine ⟨huser, ?_, ⟨q.mark now, ?_, rfl⟩,
      hinv.mem_alertsOf hcommitted ((hR _ q hdue a).mpr ⟨hsent, rfl⟩)⟩
    · rintro ⟨r, hr, hmarked⟩
      obtain rfl := Option.some.inj (hcommitted.symm.trans hr)
      rw [hunmarked] at hmarked
      cases hmarked
    · change ((db.jobs.slot a.jobId).commit i).committed = _
      rw [Slot.commit_of_held (congrArg Slot.lock hq)]
  · obtain ⟨q, now, hq, -, hdue⟩ := h.published hnot hmarked
    have hcommitted : (db.jobs.slot a.jobId).committed = some q := congrArg Slot.committed hq
    have hsent : a ∈ sent := ((hR _ q hdue a).mp (hinv.due_of_mem hcommitted ha)).1
    exact (hsharing.alerts g D (hpending g D hD) a).mpr ⟨hsent, huser⟩

/-! ### A batch -/

variable (env site setting i) in
/-- What is known when everything that is due for `ids` is queued, and shared out. -/
def announced (ids left : List Uuid) : Assertion (contract env site setting) i :=
  .ex fun x : List AlertMatch × List Uuid =>
    (holding env site setting i ids left x.1 x.2
      fun k p => ∀ a, Due env setting k p a ↔ a ∈ x.1 ∧ a.jobId = k).and
        (sharing env site setting i x.1)

/-- **What is found is queued.** -/
theorem safe_announce {newId : ℕ → Uuid} {n : ℕ} {now : Instant} :
    Safe (Assertion.onOk (fun _ => announced env site setting i ids ids) fun _ => .any)
      (announce env site newId n now ids).run
      (holding env site setting i ids ids [] [] fun _ _ => True) := by
  refine Safe.look_andThen (fun found => (Assertion.fact (∀ a ∈ found, Found setting ids a)).and
    ((holding env site setting i ids ids [] []
      fun k p => ∀ a, Due env setting k p a ↔ a ∈ found ∧ a.jobId = k).and
        (sharing env site setting i found)))
    (fun db hinv h => ⟨fun a ha => hinv.found ha, ⟨h.held, fun k hk => ?_, fun k hk hnot =>
      absurd hk hnot, h.queued, h.served⟩, ?_⟩) fun found => Safe.of_fact fun hfound => ?_
  · obtain ⟨p, hslot, hp, -⟩ := h.unmarked k hk
    have hrow : db.jobs.row i k = some p := by
      rw [Table.row, hslot]
      simp [Slot.visible]
    refine ⟨p, hslot, hp, fun a => ⟨fun ha => ⟨hinv.mem_matchesFor hk hrow ha, ha.job⟩, ?_⟩⟩
    rintro ⟨ha, rfl⟩
    exact hinv.due_of_found hrow ha
  · -- nothing is queued yet
    have hnone : ∀ g D, (db.outbox.slot g).lock ≠ some (i, some D) := by
      intro g D hlock
      obtain ⟨D', -, huser⟩ := h.served g _ hlock
      exact List.not_mem_nil huser
    exact ⟨fun g D hlock => absurd hlock (hnone g D),
      fun g _ D _ hlock => absurd hlock (hnone g D)⟩
  · split
    · rename_i hempty
      obtain rfl : found = [] := List.isEmpty_iff.mp hempty
      exact fun _ _ h => ⟨([], []), h⟩
    · refine Safe.look_keep fun jobs => ?_
      have hshares : Shares setting ids [] (perUser found) := by
        refine ⟨nodup_perUser, fun x hx a ha => ?_⟩
        obtain ⟨hmem, huser⟩ := (mem_perUser hx).mp ha
        exact ⟨hfound a hmem, huser⟩
      refine Safe.andThen (fun _ => announced env site setting i ids ids)
        ((safe_enqueueEach hshares fun x hx a => mem_perUser hx).conseq (fun _ _ h => h)
          fun b db _ h => ?_) fun _ => ?_
      · cases b with
        | error e => trivial
        | ok u =>
          obtain ⟨h, hsharing⟩ := h
          refine ⟨(found, [] ++ (perUser found).map Prod.fst), ⟨h.held, h.unmarked, h.marked,
            fun a ha => h.queued a ?_, h.served⟩, hsharing⟩
          obtain ⟨alerts, hx, hmem⟩ := exists_mem_perUser ha
          exact List.mem_flatMap.mpr ⟨_, hx, hmem⟩
      · refine Safe.of_ex fun x => Safe.keep_andThen (Action.each_ofProg (Prog.each_countEach
          fun k => ⟨keeps_touch.and fun _ _ _ hr h =>
            h.run (show (Query.touch k now).sparesOutbox = true from rfl) hr, fun _ => trivial⟩))
            (fun _ _ _ _ => trivial) fun _ => ?_
        exact fun _ _ h => ⟨x, h⟩

/-- **The jobs of a batch are marked** once everything that is due is queued. -/
theorem safe_markJobsMatched {now : Instant} (hnodup : ids.Nodup) :
    Safe (Assertion.onOk (fun _ => announced env site setting i ids []) fun _ => .any)
      (markJobsMatched now ids).run (announced env site setting i ids ids) := by
  refine Safe.of_ex fun x => Safe.ofProg ?_
  have hmarks := Safe.frame (Safe.countEach
    (f := fun k => Prog.query (Query.mark k now) fun hit => .ret hit.isSome)
    (fun ks => (Assertion.fact ks.Nodup).and (holding env site setting i ids ks x.1 x.2
      fun k p => ∀ a, Due env setting k p a ↔ a ∈ x.1 ∧ a.jobId = k)) safe_mark ids)
    (Prog.each_countEach fun k =>
      ⟨fun _ _ _ hr (h : (sharing env site setting i x.1).holds _) =>
        h.run (show (Query.mark k now).sparesOutbox = true from rfl) hr, fun _ => trivial⟩)
  exact hmarks.conseq (fun db _ h => ⟨⟨hnodup, h.1⟩, h.2⟩) fun _ _ _ h => ⟨x, h.1.2, h.2⟩

/-- The jobs to claim are listed once each. -/
theorem nodup_unmatchedJobs (j : ℕ) (db : Db) : (unmatchedJobs j db).Nodup := by
  rw [unmatchedJobs, (List.perm_insertionSort _ _).nodup_iff]
  exact db.jobs.nodup.filter _

/-- **Claiming the jobs of a batch.** -/
theorem safe_claimUnmatchedJobs {limit : ℕ} :
    Safe (Assertion.onOk (fun ids => (Assertion.fact ids.Nodup).and
        (holding env site setting i ids ids [] [] fun _ _ => True)) fun _ => .any)
      (claimUnmatchedJobs limit).run (idle env site setting i) := by
  refine Safe.look_andThen (fun unmatched => claiming env site setting i [] unmatched)
    (fun db _ h => ⟨nodup_unmatchedJobs i db, h⟩) fun unmatched => Safe.ofProg ?_
  refine (Safe.takeEach (claiming env site setting i) ?_ safe_claim limit [] unmatched).conseq
    (fun _ _ h => h) fun ids db _ h => ?_
  · rintro bs ks db - ⟨hnodup, h⟩
    exact ⟨hnodup.sublist (List.Sublist.append_left (List.nil_sublist _) _), h⟩
  · obtain ⟨hnodup, h⟩ := h
    exact ⟨by simpa using hnodup, h⟩

/-- Claiming publishes nothing. -/
theorem each_claimUnmatchedJobs {limit : ℕ} :
    (claimUnmatchedJobs limit).run.Each fun q => q.publishes = false := by
  have hclaim : ∀ k, (claim k).Each fun q => q.publishes = false := fun k => ⟨rfl, fun _ => trivial⟩
  exact Action.each_andThen (fun _ => trivial) fun unmatched =>
    Action.each_ofProg (Prog.each_takeEach hclaim limit unmatched)

theorem each_enqueueEach {newId : ℕ → Uuid} {jobs : List AlertJob} {n : ℕ}
    {rest : List (Uuid × List AlertMatch)} :
    (enqueueEach site newId jobs n rest).run.Each fun q => q.publishes = false := by
  induction rest generalizing n with
  | nil => trivial
  | cons x rest ih =>
    refine ⟨rfl, fun inserted => ?_⟩
    cases inserted with
    | false => trivial
    | true => exact ih

/-- Neither does queueing. -/
theorem each_announce {newId : ℕ → Uuid} {n : ℕ} {now : Instant} :
    (announce env site newId n now ids).run.Each fun q => q.publishes = false := by
  refine Action.each_andThen (fun _ => trivial) fun found => ?_
  split
  · trivial
  · refine Action.each_andThen (fun _ => trivial) fun jobs => ?_
    refine Action.each_andThen each_enqueueEach fun _ => Action.each_andThen ?_ fun _ => trivial
    exact Action.each_ofProg (Prog.each_countEach fun k => ⟨rfl, fun _ => trivial⟩)

/-- **A batch keeps the contract**, and holds nothing afterwards. -/
theorem safe_runBatch {newId : ℕ → Uuid} {n : ℕ} :
    Safe (Assertion.onOk (fun _ => ((idle env site setting i).adding :
        Assertion (fullContract env site setting) i)) fun _ => .any)
      (runBatch env site newId n).run (idle env site setting i).adding := by
  refine Safe.look_keep fun now => Safe.andThen (fun ids => (Assertion.fact ids.Nodup).and
    (holding env site setting i ids ids [] [] fun _ _ => True).adding)
    ((safe_full safe_claimUnmatchedJobs each_claimUnmatchedJobs).conseq (fun _ _ h => h) ?_)
    fun ids => Safe.of_fact fun hnodup => ?_
  · rintro (e | ids) db - h
    · trivial
    · exact h
  have hrollback : ∀ db b db', Consistent site setting db →
      (alertSystem env site).run .rollback i db = some (b, db') →
      Consistent site setting db' ∧ (fullContract env site setting).guar i db db' ∧
        (idle env site setting i).holds db' := by
    intro db b db' hinv hr
    obtain ⟨hinv', hg⟩ := (fullContract env site setting).rollback hinv trivial hr
    cases hr
    exact ⟨hinv', hg, idle_rollback⟩
  split
  · refine Safe.query_andThen (fun _ => (idle env site setting i).adding)
      (fun db b db' hinv _ _ hr => hrollback db b db' hinv hr) fun _ => fun _ _ h => h
  · refine Safe.transaction (Assertion.onOk (fun _ => (announced env site setting i ids []).adding)
      fun _ => .any) ?_ ?_ ?_
    · refine Safe.andThen (fun _ => (announced env site setting i ids ids).adding)
        ((safe_full safe_announce each_announce).conseq (fun _ _ h => h) ?_) fun stats => ?_
      · rintro (e | stats) db - h
        · trivial
        · exact h
      refine Safe.andThen (fun _ => (announced env site setting i ids []).adding)
        ((safe_full (safe_markJobsMatched hnodup) ?_).conseq (fun _ _ h => h) ?_) fun _ => fun _ _ h => h
      · exact Action.each_ofProg (Prog.each_countEach fun k => ⟨rfl, fun _ => trivial⟩)
      · rintro (e | n) db - h
        · trivial
        · exact h
    · rintro stats db b db' hinv ⟨x, h, hsharing⟩ - hr
      cases hr
      obtain ⟨hinv', hg⟩ := h.commit hinv fun k p hR a ha => ((hR a).mp ha).1
      exact ⟨hinv', ⟨hg, h.oneEach hinv hsharing fun _ _ hR => hR⟩,
        show (idle env site setting i).holds (db.commit i) from idle_commit⟩
    · intro e db b db' hinv _ _ hr
      obtain ⟨hinv', hg, -⟩ := hrollback db b db' hinv hr
      exact ⟨hinv', hg, trivial⟩

/-- **A pass keeps the contract**, batch after batch. -/
theorem safe_run {newId : ℕ → Uuid} {batches : ℕ} {stats : Stats} :
    Safe (fun _ => (.any : Assertion (fullContract env site setting) i))
      (run env site newId batches stats).run (idle env site setting i).adding := by
  induction batches generalizing stats with
  | zero => exact fun _ _ _ => trivial
  | succ batches ih =>
    refine Safe.andThen (fun _ => (idle env site setting i).adding) safe_runBatch fun batch => ?_
    dsimp only
    split
    · exact fun _ _ _ => trivial
    · exact ih

/-- **Every request keeps the contract.** -/
theorem safe_serve (r : Request) :
    Safe (fun _ => (.any : Assertion (fullContract env site setting) i))
      ((alertSystem env site).program i r) (idle env site setting i).adding := by
  have hplain : ∀ db, (idle env site setting i).holds db → (plain env site setting i).holds db := by
    intro db h
    refine ⟨fun g v hlock => ?_, fun k v hlock => absurd (h.held k v hlock) List.not_mem_nil⟩
    obtain ⟨D, -, huser⟩ := h.served g v hlock
    exact List.not_mem_nil huser
  have hdone : ∀ {γ : Type} {p : Alerting γ} {response : γ → Response},
      Safe (fun _ => (.any : Assertion (fullContract env site setting) i)) p.run
        (idle env site setting i).adding →
      Safe (fun _ => (.any : Assertion (fullContract env site setting) i))
        (p >>= fun b => pure (response b)).run (idle env site setting i).adding := by
    intro γ p response hp
    exact Safe.bind hp fun b => by cases b <;> exact fun _ _ _ => trivial
  cases r with
  | post id job => exact hdone ((safe_post id job).mono fun _ _ h => hplain _ h)
  | close poster id status => exact hdone ((safe_close poster id status).mono fun _ _ h => hplain _ h)
  | reopen poster id => exact hdone ((safe_reopen poster id).mono fun _ _ h => hplain _ h)
  | run newId => exact hdone safe_run

end Marketplace.Alerts
