import Marketplace.Board.SavedSearches
import Marketplace.ReadCommitted.Tally
import Marketplace.ReadCommitted.Unique
import Marketplace.ReadCommitted.RelyGuarantee

/-!
# The cap on saved searches

A search is saved by one `INSERT`, which counts the searches of the account itself. But what it
counts is what was published when it started: two of them that overlap at the cap both find room
(`Marketplace.Searches.not_always_capped`).

The cap is kept when every `INSERT` that finds room finds it with what is on its way, too
(`Marketplace.Searches.Roomy`): what may be published is then never more than the cap
(`Marketplace.Searches.searches_capped`).
-/

namespace Marketplace.Searches

open Board Search ReadCommitted

/-! ### The store -/

/-- **The database**, as far as saved searches are concerned. -/
structure Db where
  /-- The clock. -/
  clock : Instant := 0
  /-- `saved_searches`. -/
  searches : Table ℕ Uuid SavedSearch := .empty

/-- A search of account `u`. -/
def ownedBy (u : Uuid) (s : SavedSearch) : Bool := s.userId = u

/-- `SELECT count(*) FROM saved_searches WHERE user_id = u`, as process `i` sees it. -/
def owned (i : ℕ) (u : Uuid) (db : Db) : ℕ := (db.searches.rows i).countP (ownedBy u)

/-- **The queries.** -/
inductive Query : Type → Type 1
  /-- Save a search, if the account has room for it. -/
  | create (userId : Uuid) (name : Text) (filters : Filters) (now : Instant) :
      Query (Except AppError SavedSearch)
  /-- Delete a search of an account. -/
  | delete (userId id : Uuid) : Query Bool
  /-- Stop the mail of a search. -/
  | setNotifyOff (id : Uuid) : Query (Option Unit)
  /-- Note that a search has been mailed about. -/
  | touchNotified (id : Uuid) (now : Instant) : Query (Option Unit)
  /-- Commit the open transaction. -/
  | commit : Query Unit
  /-- Roll the open transaction back. -/
  | rollback : Query Unit

/-- **What a query does**, on behalf of process `i`. -/
def Query.run {β : Type} : Query β → ℕ → Db → Option (β × Db)
  | .create userId name filters now, i, db =>
    -- the count and the insert are one statement, and see the same rows
    match Board.create db.searches.fresh userId name filters now (owned i userId db) with
    | .ok s => (db.searches.insertFresh .tx i (fun _ => false) s).map fun p =>
      (.ok s, { db with searches := p.2 })
    | .error e => some (.error e, db)
  | .delete userId id, i, db =>
    (db.searches.remove .auto i id (ownedBy userId)).map fun p => (p.1, { db with searches := p.2 })
  | .setNotifyOff id, i, db =>
    (db.searches.modify .auto i id (Table.updating fun s => some ((), s.setNotifyOff))).map fun p =>
      (p.1, { db with searches := p.2 })
  | .touchNotified id now, i, db =>
    (db.searches.modify .tx i id (Table.updating fun s => some ((), s.touchNotified now))).map
      fun p => (p.1, { db with searches := p.2 })
  | .commit, i, db => some ((), { db with searches := db.searches.commit i })
  | .rollback, i, db => some ((), { db with searches := db.searches.rollback i })

/-! ### Requests -/

/-- What a request is answered with. -/
inductive Response
  /-- The request is done. -/
  | done
  /-- The search, as it was saved. -/
  | saved (search : SavedSearch)
  deriving DecidableEq

/-- A program that saves searches. -/
abbrev Saving (α : Type) : Type 1 := Action ℕ Db Query AppError α

/-- **What the requests read besides**: how texts match, and the trades that process `i` finds. -/
structure Setting where
  /-- The functions of the database. -/
  env : Search.Env
  /-- The trades. -/
  vocabulary : ℕ → Vocabulary

variable (setting : Setting)

/-- **`create_saved_search`.** The statement that inserts the row commits when it is over. -/
def createSavedSearch (i : ℕ) (userId : Uuid) (name : Text) (raw : RawQuery) : Saving Response :=
  let name := trim name
  if name.isEmpty || 120 < name.length then
    throw (.invalid "Give the search a name, up to 120 characters.")
  else
    match resolve setting.env (setting.vocabulary i) raw with
    | .error e => throw e
    | .ok query => do
      let now ← Action.look fun _ db => db.clock
      let saved ← Action.query (.create userId name query.filters now)
      Action.query .commit
      match saved with
      | .ok s => pure (.saved s)
      | .error e => throw e

/-- Delete a search. -/
def delete (userId id : Uuid) : Saving Response := do
  let gone ← Action.query (.delete userId id)
  if gone then pure .done else throw .notFound

/-- Stop the mail of a search. -/
def unsubscribe (id : Uuid) : Saving Response := do
  let _ ← Action.query (.setNotifyOff id)
  pure .done

/-- Note the searches that a digest has named, in the transaction that queues it. -/
def notified (ids : List Uuid) : Saving Response := do
  let now ← Action.look fun _ db => db.clock
  let _ ← Action.ofProg (.countEach ids fun id =>
    .query (.touchNotified id now) fun found => .ret found.isSome)
  Action.query .commit
  pure .done

/-- A request. -/
inductive Request
  | create (userId : Uuid) (name : Text) (raw : RawQuery)
  | delete (userId id : Uuid)
  | unsubscribe (id : Uuid)
  | notified (ids : List Uuid)
  deriving DecidableEq

/-- The program of a request, at process `i`. -/
def serve (i : ℕ) : Request → Saving Response
  | .create userId name raw => createSavedSearch setting i userId name raw
  | .delete userId id => delete userId id
  | .unsubscribe id => unsubscribe id
  | .notified ids => notified ids

/-- **The requests about saved searches**, as a system. -/
def saving : System ℕ Db Request (Except AppError Response) Query where
  run := Query.run
  rollback := .rollback
  tick := fun n db => { db with clock := db.clock + n }
  program := fun i r => (serve setting i r).run

/-! ### The cap -/

/-- **Every account has room for what may be published of its searches.** -/
def Db.Capped (db : Db) : Prop := ∀ u, db.searches.potential (ownedBy u) ≤ maxPerUser

/-- **A search is saved where there is room**: an `INSERT` that finds fewer published searches of
the account than the cap finds fewer with those on their way, too. -/
def Roomy : Proviso ℕ Db Query := fun {_} i q db =>
  match q with
  | .create u _ _ _ => owned i u db < maxPerUser →
    db.searches.potential (ownedBy u) < maxPerUser
  | _ => True

section Steps

variable {setting : Setting} {i : ℕ} {db db' : Db} {β : Type} {q : Query β} {b : β}

/-- What is saved was saved below the cap, and belongs to the account. -/
theorem create_cases {id userId : Uuid} {name : Text} {f : Filters} {now : Instant} {n : ℕ}
    {s : SavedSearch} (h : Board.create id userId name f now n = .ok s) :
    n < maxPerUser ∧ s.userId = userId := by
  rw [Board.create] at h
  split at h
  · rename_i hlt
    split at h
    · cases h
      exact ⟨hlt, rfl⟩
    · cases h
  · cases h

/-- A row that is written over one of the same account brings nothing. -/
theorem potential_modify_le {m : Mode} {id u : Uuid} {f : SavedSearch → SavedSearch}
    (hf : ∀ s, (f s).userId = s.userId) {t : Table ℕ Uuid SavedSearch} {o : Option Unit}
    (hr : db.searches.modify m i id (Table.updating fun s => some ((), f s)) = some (o, t)) :
    t.potential (ownedBy u) ≤ db.searches.potential (ownedBy u) := by
  obtain ⟨hfree, -, ⟨-, rfl⟩ | ⟨s', hs', rfl⟩⟩ := Table.modify_cases hr
  · exact le_rfl
  obtain ⟨s, o', hrow, he⟩ := Table.updating_cases hs'
  cases he
  refine Table.potential_put_le_of fun hnew => ?_
  have hold : ownedBy u (f s) = true → (db.searches.slot id).mayHave (ownedBy u) = true := by
    intro hu
    have hs : ownedBy u s = true := by
      rw [ownedBy, ← hf]
      exact hu
    rcases Slot.version_of_visible hrow with hc | ⟨j, hlock⟩
    · rw [Slot.mayHave, hc, Option.any_some, hs, Bool.true_or]
    · rw [Slot.mayHave, hlock, Option.any_some, Option.any_some, hs, Bool.or_true]
  cases m with
  | auto =>
    rw [Slot.mayHave, Slot.put, Option.any_some, Option.any_none, Bool.or_false] at hnew
    exact hold hnew
  | tx =>
    rw [Slot.mayHave, Bool.or_eq_true_iff] at hnew
    rcases hnew with hc | hlock
    · rw [Slot.mayHave, Bool.or_eq_true_iff]
      exact Or.inl hc
    · exact hold hlock

/-- **A step that finds room keeps the cap.** -/
theorem Db.Capped.run (h : db.Capped) (hC : Roomy i q db) (hr : q.run i db = some (b, db')) :
    db'.Capped := by
  intro u
  cases q with
  | create userId name f now =>
    rw [Query.run] at hr
    split at hr
    · rename_i s hs
      obtain ⟨hlt, howner⟩ := create_cases hs
      obtain ⟨⟨o, t⟩, hp, he⟩ := Option.map_eq_some_iff.mp hr
      cases he
      obtain ⟨-, ⟨-, rfl⟩ | ⟨-, rfl, -⟩⟩ := Table.insertFresh_cases hp
      · exact h u
      by_cases hu : userId = u
      · subst hu
        have hroom : db.searches.potential (ownedBy userId) < maxPerUser := hC hlt
        exact le_trans Table.potential_put_le hroom
      · refine le_trans (Table.potential_put_le_of fun hnew => ?_) (h u)
        have hnot : ownedBy u s = false := decide_eq_false fun h => hu (howner.symm.trans h)
        simp [Slot.mayHave, Slot.put, hnot, Slot.write] at hnew
    · cases hr
      exact h u
  | delete userId id =>
    obtain ⟨⟨o, t⟩, hp, he⟩ := Option.map_eq_some_iff.mp hr
    cases he
    obtain ⟨-, ⟨-, -, rfl⟩ | ⟨-, -, rfl⟩⟩ := Table.remove_cases hp
    · exact h u
    · refine le_trans (Table.potential_put_le_of fun hnew => ?_) (h u)
      cases hnew
  | setNotifyOff id =>
    obtain ⟨⟨o, t⟩, hp, he⟩ := Option.map_eq_some_iff.mp hr
    cases he
    exact le_trans (potential_modify_le (f := SavedSearch.setNotifyOff) (fun _ => rfl) hp) (h u)
  | touchNotified id now =>
    obtain ⟨⟨o, t⟩, hp, he⟩ := Option.map_eq_some_iff.mp hr
    cases he
    exact le_trans (potential_modify_le (f := fun s => s.touchNotified now) (fun _ => rfl) hp) (h u)
  | commit =>
    cases hr
    exact le_trans Table.potential_commit_le (h u)
  | rollback =>
    cases hr
    exact le_trans Table.potential_rollback_le (h u)

end Steps

/-! ### Whole runs -/

section Runs

variable {setting : Setting} {s₀ : Db} {c : Config ℕ Db Request (Except AppError Response) Query}

/-- **No account has more searches than the cap**, in any run whose searches are saved where there
is room. -/
theorem searches_capped (h₀ : s₀.Capped) (h : Reachable (saving setting) Roomy (.initial s₀) c)
    (u : Uuid) : c.db.searches.tally (ownedBy u) ≤ maxPerUser := by
  have hcapped : c.db.Capped := invariant_of_run Db.Capped
    (fun q i s b s' hs hC hr => hs.run hC hr) (fun _ _ hs => hs) h₀ h
  exact le_trans Table.tally_le_potential (hcapped u)

/-! ### Runs -/

/-- Account `8` has nineteen searches. -/
def nineteen : Db where
  searches := Table.ofList SavedSearch.id
    ((List.range 19).map fun n => searchRow n 8 "Repairs nearby".toList repairsFilters 0)
    (by decide +kernel)

/-- A marketplace with no trades. -/
def noTrades : Setting := ⟨Search.Env.plain, fun _ => ⟨[], []⟩⟩

theorem nineteen_capped : nineteen.Capped := by
  intro u
  exact le_trans List.countP_le_length (by decide +kernel)

/-- A test that passes only where there is room. -/
def Query.roomy (i : ℕ) (db : Db) : {β : Type} → Query β → Bool
  | _, .create u _ _ _ =>
    !decide (owned i u db < maxPerUser) ||
      decide (db.searches.potential (ownedBy u) < maxPerUser)
  | _, _ => true

theorem roomy_of_check {β : Type} (i : ℕ) (q : Query β) (db : Db) (h : q.roomy i db = true) :
    Roomy i q db := by
  cases q with
  | create u name f now =>
    intro hlt
    rw [Query.roomy, decide_eq_true hlt] at h
    exact of_decide_eq_true h
  | delete | setNotifyOff | touchNotified | commit | rollback => trivial

/-- One more is saved, and the next is refused. -/
theorem searches_capped_twenty :
    ∃ c, Reachable (saving noTrades) Roomy (.initial nineteen) c ∧
      c.Served 1 (.create 8 "Again".toList repairsRaw)
        (.error (.invalid "You already have 20 saved searches. Delete one to save another.")) ∧
      c.db.searches.tally (ownedBy 8) ≤ 20 := by
  have hrun := exists_of_exec ((saving noTrades).guarded fun i q db => q.roomy i db)
    (.arrive 0 (.create 8 "Once more".toList repairsRaw) :: List.replicate 3 (.run 0) ++
      .arrive 1 (.create 8 "Again".toList repairsRaw) :: List.replicate 3 (.run 1))
    (.initial nineteen)
    (fun c => decide (c.Served 1 (.create 8 "Again".toList repairsRaw)
      (.error (.invalid "You already have 20 saved searches. Delete one to save another."))))
    (by decide +kernel)
  obtain ⟨c, hc, hserved⟩ := hrun
  have hreach := reachable_of_guarded roomy_of_check hc
  exact ⟨c, hreach, of_decide_eq_true hserved, searches_capped nineteen_capped hreach 8⟩

/-- Two are saved at the same moment, and each finds nineteen. -/
theorem not_always_capped :
    ¬ ∀ c, Reachable (saving noTrades) anyQuery (.initial nineteen) c →
      ∀ u, c.db.searches.tally (ownedBy u) ≤ maxPerUser := by
  have hrun := exists_of_exec (saving noTrades)
    ([.arrive 0 (.create 8 "One more".toList repairsRaw),
      .arrive 1 (.create 8 "And another".toList repairsRaw), .run 0, .run 0, .run 1, .run 1,
      .run 0, .run 1])
    (.initial nineteen)
    (fun c => decide (maxPerUser < c.db.searches.tally (ownedBy 8))) (by decide +kernel)
  intro hcapped
  obtain ⟨c, hc, hmore⟩ := hrun
  exact absurd (hcapped c hc 8) (not_le.mpr (of_decide_eq_true hmore))

end Runs

end Marketplace.Searches
