import Marketplace.Registry.Turns

/-!
# What programs of the registry yield

What a program does while nothing but time passes, from the contents that its process sees: it
ends, and its result and the contents that it leaves are as `post` says
(`Marketplace.Registry.Yields`). The rules follow the programs, and there is one lemma for the
statements on each table: a statement there is a function of the rows that are seen.
-/

namespace Marketplace.Registry

open ReadCommitted

/-! ### Where a program runs -/

/-- **The contents that process `i` sees**: outside of transactions, or in one, while `P` is
published. -/
def Db.In (i : ℕ) : Option Contents → Contents → Db → Prop
  | none, C, db => db.Rests C
  | some P, C, db => db.Stage i P C

/-- How statements are issued there. -/
def modeIn : Option Contents → Mode
  | none => .auto
  | some _ => .tx

namespace Db.In

variable {atlas : Atlas} {i : ℕ} {w : Option Contents} {C : Contents} {db db' : Db} {β : Type} {b : β}

theorem tick (h : db.In i w C) (n : ℕ) : ((registry atlas).tick n db).In i w C := by
  cases w with
  | none => exact Db.Rests.tick h n
  | some P => exact Db.Stage.tick h n

theorem seen (h : db.In i w C) : db.seen i = C := by
  cases w with
  | none => exact (h.quiet.seen_eq i).trans h.published
  | some P => exact Db.Stage.seen h

theorem admits (h : db.In i w C) : db.Admits (modeIn w) i := by
  cases w with
  | none => exact h.quiet.admits
  | some P => exact Db.Stage.admits h

/-- A statement leaves its process where it was. -/
theorem step {q : Query β} (h : db.In i w C) (hq : q.run atlas i db = some (b, db'))
    (hm : q.mode = some (modeIn w)) : db'.In i w (db'.seen i) := by
  have hplaces := Query.places hq hm
  have hadmits := hplaces.admits h.admits
  cases w with
  | none => exact ⟨hadmits.quiet, (hadmits.quiet.seen_eq i).symm⟩
  | some P => exact ⟨hadmits, rfl, hplaces.published_eq.trans h.published⟩

/-! ### The tables -/

theorem licenses_eq (h : db.In i w C) : db.licenses.seen i = C.licenses :=
  congrArg Contents.licenses h.seen

theorem versions_eq (h : db.In i w C) : db.versions.seen i = C.versions :=
  congrArg Contents.versions h.seen

theorem runs_eq (h : db.In i w C) : db.runs.seen i = C.runs := congrArg Contents.runs h.seen

theorem contractors_eq (h : db.In i w C) : db.contractors.seen i = C.contractors :=
  congrArg Contents.contractors h.seen

theorem trades_eq (h : db.In i w C) : db.trades.seen i = C.trades :=
  congrArg Contents.trades h.seen

theorem queue_eq (h : db.In i w C) : db.queue.seen i = C.queue := congrArg Contents.queue h.seen

/-- A statement on licences. -/
theorem license (h : db.In i w C) {q : LicenseStatement β} {t : Licenses}
    (hq : q.run (modeIn w) i db.licenses = some (b, t)) :
    ∃ db', (Query.license (modeIn w) q).run atlas i db = some (b, db') ∧
      db'.In i w { C with licenses := t.seen i } := by
  have hrun : (Query.license (modeIn w) q).run atlas i db =
      some (b, { db with licenses := t }) := Option.map_eq_some_iff.mpr ⟨(b, t), hq, rfl⟩
  exact ⟨_, hrun, h.seen ▸ h.step hrun rfl⟩

/-- A version. -/
theorem addVersion (h : db.In i w C) (id : Uuid) (hash : Digest) (version : Version) :
    ∃ b db', (Query.addVersion (modeIn w) id hash version).run atlas i db = some (b, db') ∧
      db'.In i w { C with
        versions := Table.overlay C.versions (id, hash)
          (Table.inserting version (C.versions (id, hash))).2 } := by
  obtain ⟨t, ht, hseen⟩ := h.admits.versions.modify (id, hash) (Table.inserting version)
  have hrun : (Query.addVersion (modeIn w) id hash version).run atlas i db =
      some (_, { db with versions := t }) := Option.map_eq_some_iff.mpr ⟨(_, t), ht, rfl⟩
  refine ⟨_, _, hrun, ?_⟩
  rw [h.versions_eq] at hseen
  rw [← hseen]
  exact h.seen ▸ h.step hrun rfl

/-- A statement on runs. -/
theorem importRun (h : db.In i w C) {q : RunStatement β} {t : Runs}
    (hq : q.run (modeIn w) i db.runs = some (b, t)) :
    ∃ db', (Query.importRun (modeIn w) q).run atlas i db = some (b, db') ∧
      db'.In i w { C with runs := t.seen i } := by
  have hrun : (Query.importRun (modeIn w) q).run atlas i db =
      some (b, { db with runs := t }) := Option.map_eq_some_iff.mpr ⟨(b, t), hq, rfl⟩
  exact ⟨_, hrun, h.seen ▸ h.step hrun rfl⟩

/-- A statement on listings. -/
theorem listing (h : db.In i w C) {q : ListingStatement β} {t : Listings}
    (hq : q.run atlas (modeIn w) i db.contractors = some (b, t)) :
    ∃ db', (Query.listing (modeIn w) q).run atlas i db = some (b, db') ∧
      db'.In i w { C with contractors := t.seen i } := by
  have hrun : (Query.listing (modeIn w) q).run atlas i db =
      some (b, { db with contractors := t }) := Option.map_eq_some_iff.mpr ⟨(b, t), hq, rfl⟩
  exact ⟨_, hrun, h.seen ▸ h.step hrun rfl⟩

/-- A trade is written. -/
theorem addTrade (h : db.In i w C) (key : TradeKey) :
    ∃ db', (Query.trade (modeIn w) (.add key)).run atlas i db =
        some ((C.trades key).isNone, db') ∧
      db'.In i w { C with trades := Function.update C.trades key (some ()) } := by
  obtain ⟨t, ht, hseen⟩ := h.admits.trades.modify key (Table.inserting ())
  rw [h.trades_eq] at ht hseen
  have hupdate : Table.overlay C.trades key (Table.inserting () (C.trades key)).2 =
      Function.update C.trades key (some ()) := by
    cases htrade : C.trades key with
    | none => rfl
    | some u =>
      show C.trades = _
      rw [← htrade, Function.update_eq_self]
  have hanswer : (Table.inserting () (C.trades key)).1 = (C.trades key).isNone := by
    cases C.trades key <;> rfl
  rw [hanswer] at ht
  have hrun : (Query.trade (modeIn w) (.add key)).run atlas i db =
      some ((C.trades key).isNone, { db with trades := t }) :=
    Option.map_eq_some_iff.mpr ⟨(_, t), ht, rfl⟩
  refine ⟨_, hrun, ?_⟩
  rw [← hupdate, ← hseen]
  exact h.seen ▸ h.step hrun rfl

/-- A trade is deleted. -/
theorem dropTrade (h : db.In i w C) (key : TradeKey) :
    ∃ db', (Query.trade (modeIn w) (.drop key)).run atlas i db =
        some ((C.trades key).isSome, db') ∧
      db'.In i w { C with trades := Function.update C.trades key none } := by
  obtain ⟨t, ht, hseen⟩ := h.admits.trades.remove key
  rw [h.trades_eq] at ht hseen
  have hrun : (Query.trade (modeIn w) (.drop key)).run atlas i db =
      some ((C.trades key).isSome, { db with trades := t }) :=
    Option.map_eq_some_iff.mpr ⟨(_, t), ht, rfl⟩
  refine ⟨_, hrun, ?_⟩
  rw [← hseen]
  exact h.seen ▸ h.step hrun rfl

/-- A statement on the queue. -/
theorem job (h : db.In i w C) {q : JobStatement β} {t : Queue}
    (hq : q.run (modeIn w) i db.queue = some (b, t)) :
    ∃ db', (Query.job (modeIn w) q).run atlas i db = some (b, db') ∧
      db'.In i w { C with queue := t.seen i } := by
  have hrun : (Query.job (modeIn w) q).run atlas i db =
      some (b, { db with queue := t }) := Option.map_eq_some_iff.mpr ⟨(b, t), hq, rfl⟩
  exact ⟨_, hrun, h.seen ▸ h.step hrun rfl⟩

end Db.In

/-! ### Programs -/

/-- **What a program yields** from the contents `C` that its process sees: it ends, with a result and
contents as `post` says. -/
def Yields {α : Type} (atlas : Atlas) (i : ℕ) (w : Option Contents) (C : Contents)
    (p : Registering α) (post : Except AppError α → Contents → Prop) : Prop :=
  ∀ db log, db.In i w C → p.run.Undisturbed (registry atlas) i
    (fun r _ db' => ∃ C', db'.In i w C' ∧ post r C') log db

namespace Yields

variable {atlas : Atlas} {i : ℕ} {w : Option Contents} {C : Contents} {α β : Type}
  {p : Registering α} {post post' : Except AppError α → Contents → Prop}

theorem mono (h : Yields atlas i w C p post) (hpost : ∀ r C', post r C' → post' r C') :
    Yields atlas i w C p post' := by
  intro db log hdb
  refine (h db log hdb).mono ?_
  rintro r _ db' ⟨C', hdb', hr⟩
  exact ⟨C', hdb', hpost r C' hr⟩

theorem pure {a : α} (h : post (.ok a) C) : Yields atlas i w C (Pure.pure a) post :=
  fun _ _ hdb => ⟨C, hdb, h⟩

theorem throw {e : AppError} (h : post (.error e) C) :
    Yields atlas i w C (MonadExcept.throw e : Registering α) post :=
  fun _ _ hdb => ⟨C, hdb, h⟩

/-- One program after another. -/
theorem seq {p : Registering β} {k : β → Registering α}
    (h : Yields atlas i w C p fun r C' =>
      (∀ b, r = .ok b → Yields atlas i w C' (k b) post) ∧ ∀ e, r = .error e → post (.error e) C') :
    Yields atlas i w C (p >>= k) post := by
  intro db log hdb
  refine Action.undisturbed_seq ((h db log hdb).mono ?_)
  rintro r log' db' ⟨C', hdb', hok, herror⟩
  exact ⟨fun b hr => hok b hr db' log' hdb', fun e hr => ⟨C', hdb', herror e hr⟩⟩

/-- One program after another that does not fail. -/
theorem andThen {p : Registering β} {k : β → Registering α}
    (h : Yields atlas i w C p fun r C' => ∃ b, r = .ok b ∧ Yields atlas i w C' (k b) post) :
    Yields atlas i w C (p >>= k) post := by
  refine seq (h.mono ?_)
  rintro r C' ⟨b, rfl, hk⟩
  refine ⟨fun b' hr => ?_, fun e hr => ?_⟩
  · cases hr
    exact hk
  · cases hr

/-- A program whose failure is looked at by the next one. -/
theorem attempt {p : Registering β} {k : Except AppError β → Registering α}
    (h : Yields atlas i w C p fun r C' => Yields atlas i w C' (k r) post) :
    Yields atlas i w C (Action.ofProg p.run >>= k) post := by
  intro db log hdb
  refine Action.undisturbed_ofProg ((h db log hdb).mono ?_)
  rintro r log' db' ⟨C', hdb', hk⟩
  exact hk db' log' hdb'

/-- A look at the database. -/
theorem look {f : ℕ → Db → β} {k : β → Registering α}
    (h : ∀ db, db.In i w C → Yields atlas i w C (k (f i db)) post) :
    Yields atlas i w C (Action.look f >>= k) post :=
  fun _ log hdb => Action.undisturbed_look fun n => h _ (hdb.tick n) _ log (hdb.tick n)

/-- The time. -/
theorem clock {k : Instant → Registering α} (h : ∀ now, Yields atlas i w C (k now) post) :
    Yields atlas i w C (Registry.clock >>= k) post :=
  look fun db _ => h (Db.clock db)

/-- One query. -/
theorem query {q : Query β} {k : β → Registering α}
    (h : ∀ db, db.In i w C → ∃ b db' C', q.run atlas i db = some (b, db') ∧ db'.In i w C' ∧
      Yields atlas i w C' (k b) post) : Yields atlas i w C (Action.query q >>= k) post := by
  intro db log hdb
  refine Action.undisturbed_query fun n => ?_
  obtain ⟨b, db', C', hq, hdb', hk⟩ := h _ (hdb.tick n)
  exact ⟨b, db', hq, hk db' _ hdb'⟩

/-- **A transaction**, which leaves the contents as they were when it fails. -/
theorem transaction {body : Registering α}
    (h : Yields atlas i (some C) C body fun r C' =>
      (∀ a, r = .ok a → post (.ok a) C') ∧ ∀ e, r = .error e → post (.error e) C) :
    Yields atlas i none C (.transaction .commit .rollback body) post := by
  intro db log hdb
  refine Action.undisturbed_ended ((h db log (Db.Rests.stage hdb i)).mono ?_)
  rintro r log' db' ⟨C', hdb', hok, herror⟩
  have hdb' : db'.Stage i C C' := hdb'
  refine ⟨fun a hr n => ⟨(), _, rfl, C', (hdb'.tick n).commit, hok a hr⟩,
    fun e hr n => ⟨(), _, rfl, C, (hdb'.tick n).rollback, herror e hr⟩⟩

/-- **A loop over a list**, with what is known before each of its rounds, and of its count. -/
theorem countsEach {κ : Type} {keys : List κ} {q : κ → Query Bool}
    {post : Except AppError ℕ → Contents → Prop} (I : List κ → ℕ → Contents → Prop) (hC : I keys 0 C)
    (hstep : ∀ key rest n C db, I (key :: rest) n C → db.In i w C →
      ∃ b db' C', (q key).run atlas i db = some (b, db') ∧ db'.In i w C' ∧
        I rest (if b then n + 1 else n) C')
    (hend : ∀ n C', I [] n C' → post (.ok n) C') :
    Yields atlas i w C
      (Action.ofProg (Prog.countEach keys fun key => .query (q key) .ret)) post := by
  intro db log hdb
  refine Prog.Undisturbed.bind ((Prog.Undisturbed.countsEach
    (fun rest n s => ∃ C, I rest n C ∧ s.In i w C) ?_ ⟨C, hC, hdb⟩).mono ?_)
  · rintro key rest n log s ⟨C, hI, hs⟩ t
    obtain ⟨b, db', C', hq, hdb', hI'⟩ := hstep key rest n C _ hI (hs.tick t)
    exact ⟨b, db', hq, C', hI', hdb'⟩
  · rintro n log' s ⟨C', hI, hs⟩
    rw [Nat.zero_add] at hI
    exact ⟨C', hs, hend n C' hI⟩

/-- A loop over a list, whatever it counts, before another program. -/
theorem countEach {κ : Type} {keys : List κ} {q : κ → Query Bool} {k : ℕ → Registering α}
    (I : List κ → Contents → Prop) (hC : I keys C)
    (hstep : ∀ key rest C db, I (key :: rest) C → db.In i w C →
      ∃ b db' C', (q key).run atlas i db = some (b, db') ∧ db'.In i w C' ∧ I rest C')
    (hk : ∀ n C', I [] C' → Yields atlas i w C' (k n) post) :
    Yields atlas i w C
      (Action.ofProg (Prog.countEach keys fun key => .query (q key) .ret) >>= k) post :=
  andThen (countsEach (fun rest _ => I rest) hC (fun key rest _ => hstep key rest)
    fun n C' hI => ⟨n, rfl, hk n C' hI⟩)

/-- **A run of a program** ends as it yields. -/
theorem of_runs (h : Yields atlas i w C p post) {Cond : Proviso ℕ Db Query} {s s' : Db}
    {r : Except AppError α} (hrun : p.run.Runs (registry atlas) Cond i s r s') (hs : s.In i w C) :
    ∃ C', s'.In i w C' ∧ post r C' := by
  obtain ⟨-, hend⟩ := (h s [] hs).of_runs hrun
  exact hend

end Yields

end Marketplace.Registry
