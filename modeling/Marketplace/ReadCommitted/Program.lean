import Marketplace.ReadCommitted.Slot
import Mathlib.Logic.Relation

/-!
# Programs of statements, and their interleavings

A request is a `ReadCommitted.Prog`: a tree of reads and queries, each run
atomically against the shared store on behalf of the process that issues it, the
rest of the program depending on the answer. A read leaves the store alone, which
is why it needs no name; everything that writes, locks, or ends a transaction is a
query of a signature `Q`, so that what one step can do to the store is a case
analysis on the constructors of `Q`, done once.

A `ReadCommitted.System` interprets the signature and says which program each
request runs. Its configurations are a store and a pool of processes, and one step
(`ReadCommitted.Step`) is a request arriving, one read or query of one process, a
process dying – its transaction is rolled back –, or time passing. A query that
must wait for a lock has no answer yet, and its process stays where it is. Nothing
bounds the number of processes or the order of their steps, so
`ReadCommitted.Reachable` ranges over every interleaving.

Queries are run under a *proviso* on the process, the query and the store it finds,
for results about the runs whose steps all satisfy one. `ReadCommitted.exec` runs
an explicit schedule, which is how a particular interleaving is exhibited.
-/

namespace ReadCommitted

variable {ι σ ρ α γ κ : Type} {Q : Type → Type 1}

/-! ### Programs -/

/-- **A program** over the signature `Q`. -/
inductive Prog (ι σ : Type) (Q : Type → Type 1) (α : Type) : Type 1
  /-- The program is over, with a result. -/
  | ret (a : α) : Prog ι σ Q α
  /-- Look at the store, and continue with what is found. -/
  | read {β : Type} (f : ι → σ → β) (k : β → Prog ι σ Q α) : Prog ι σ Q α
  /-- Run a query, and continue with its answer. -/
  | query {β : Type} (q : Q β) (k : β → Prog ι σ Q α) : Prog ι σ Q α

namespace Prog

/-- One program after another. -/
def bind (p : Prog ι σ Q α) (f : α → Prog ι σ Q γ) : Prog ι σ Q γ :=
  match p with
  | .ret a => f a
  | .read g k => .read g fun b => (k b).bind f
  | .query q k => .query q fun b => (k b).bind f

instance : Monad (Prog ι σ Q) where
  pure := ret
  bind := bind

section

variable {β : Type} {f : α → Prog ι σ Q γ}

@[simp] theorem pure_eq (a : α) : (pure a : Prog ι σ Q α) = ret a := rfl

@[simp] theorem ret_bind (a : α) : (ret a >>= f) = f a := rfl

@[simp] theorem read_bind (g : ι → σ → β) (k : β → Prog ι σ Q α) :
    (read g k >>= f) = read g fun b => k b >>= f := rfl

@[simp] theorem query_bind (q : Q β) (k : β → Prog ι σ Q α) :
    (query q k >>= f) = query q fun b => k b >>= f := rfl

end

/-- Look at the store. -/
def look {β : Type} (f : ι → σ → β) : Prog ι σ Q β := read f ret

/-- Run one query. -/
def run {β : Type} (q : Q β) : Prog ι σ Q β := query q ret

/-- The same program for each element of a list, in order; the answers are counted
when they are `true`. -/
def countEach (ks : List κ) (f : κ → Prog ι σ Q Bool) : Prog ι σ Q ℕ :=
  match ks with
  | [] => ret 0
  | k :: ks => do
    let hit ← f k
    let n ← countEach ks f
    pure (if hit then n + 1 else n)

/-- The same program for each element of a list, in order, until `limit` of them have had
an answer; these are collected. -/
def takeEach {β : Type} (f : κ → Prog ι σ Q (Option β)) : ℕ → List κ → Prog ι σ Q (List β)
  | _, [] => ret []
  | 0, _ => ret []
  | limit + 1, k :: ks => do
    let b ← f k
    match b with
    | some b => do
      let bs ← takeEach f limit ks
      pure (b :: bs)
    | none => takeEach f (limit + 1) ks

/-- Every query of the program satisfies `φ`, whatever the answers are. -/
def Each (φ : {β : Type} → Q β → Prop) : Prog ι σ Q α → Prop
  | ret _ => True
  | read _ k => ∀ b, (k b).Each φ
  | query q k => φ q ∧ ∀ b, (k b).Each φ

section Each

variable {β : Type} {φ : {β : Type} → Q β → Prop}

@[simp] theorem each_ret {a : α} : (ret a : Prog ι σ Q α).Each φ ↔ True := Iff.rfl

@[simp] theorem each_read {f : ι → σ → β} {k : β → Prog ι σ Q α} :
    (read f k).Each φ ↔ ∀ b, (k b).Each φ :=
  Iff.rfl

@[simp] theorem each_query {q : Q β} {k : β → Prog ι σ Q α} :
    (query q k).Each φ ↔ φ q ∧ ∀ b, (k b).Each φ :=
  Iff.rfl

theorem Each.mono {p : Prog ι σ Q α} {ψ : {β : Type} → Q β → Prop} (h : p.Each φ)
    (hφ : ∀ {β : Type} (q : Q β), φ q → ψ q) : p.Each ψ := by
  induction p with
  | ret a => trivial
  | read g k ih => exact fun b => ih b (h b)
  | query q k ih => exact ⟨hφ q h.1, fun b => ih b (h.2 b)⟩

theorem each_of_forall (hφ : ∀ {β : Type} (q : Q β), φ q) {p : Prog ι σ Q α} : p.Each φ := by
  induction p with
  | ret a => trivial
  | read g k ih => exact fun b => ih b
  | query q k ih => exact ⟨hφ q, fun b => ih b⟩

theorem each_bind {p : Prog ι σ Q α} {f : α → Prog ι σ Q γ} (hp : p.Each φ)
    (hf : ∀ a, (f a).Each φ) : (p >>= f).Each φ := by
  induction p with
  | ret a => exact hf a
  | read g k ih => exact fun b => ih b (hp b)
  | query q k ih => exact ⟨hp.1, fun b => ih b (hp.2 b)⟩

theorem each_countEach {ks : List κ} {f : κ → Prog ι σ Q Bool} (h : ∀ k, (f k).Each φ) :
    (countEach ks f).Each φ := by
  induction ks with
  | nil => trivial
  | cons k ks ih => exact each_bind (h k) fun _ => each_bind ih fun _ => trivial

theorem each_takeEach {f : κ → Prog ι σ Q (Option β)} (h : ∀ k, (f k).Each φ) (limit : ℕ)
    (ks : List κ) : (takeEach f limit ks).Each φ := by
  induction ks generalizing limit with
  | nil => cases limit <;> trivial
  | cons k ks ih =>
    cases limit with
    | zero => trivial
    | succ limit =>
      refine each_bind (h k) fun b => ?_
      cases b with
      | some b => exact each_bind (ih limit) fun _ => trivial
      | none => exact ih (limit + 1)

end Each

end Prog

/-! ### Programs that may fail -/

/-- **A program that may fail**: an error ends it. -/
abbrev Action (ι σ : Type) (Q : Type → Type 1) (ε α : Type) : Type 1 := ExceptT ε (Prog ι σ Q) α

namespace Action

variable {ε β : Type}

/-- Look at the store. -/
def look (f : ι → σ → β) : Action ι σ Q ε β := ExceptT.lift (Prog.look f)

/-- Run one query. -/
def query (q : Q β) : Action ι σ Q ε β := ExceptT.lift (Prog.run q)

/-- A program that does not fail. -/
def ofProg (p : Prog ι σ Q β) : Action ι σ Q ε β := ExceptT.lift p

/-- **A transaction**: the body, then `commit`, or `rollback` when the body failed. -/
def transaction (commit rollback : Q Unit) (body : Action ι σ Q ε α) : Action ι σ Q ε α :=
  Prog.bind body fun
    | .ok a => .query commit fun _ => .ret (.ok a)
    | .error e => .query rollback fun _ => .ret (.error e)

variable {k : β → Action ι σ Q ε α}

theorem look_bind (f : ι → σ → β) : (look f >>= k) = Prog.read f k := rfl

theorem query_bind (q : Q β) : (query q >>= k) = Prog.query q k := rfl

theorem ofProg_bind (p : Prog ι σ Q β) : (ofProg p >>= k) = Prog.bind p k := by
  induction p with
  | ret a => rfl
  | read f g ih => exact congrArg (Prog.read f) (funext ih)
  | query q g ih => exact congrArg (Prog.query q) (funext ih)

theorem pure_bind (b : β) : (pure b >>= k) = k b := rfl

theorem throw_bind (e : ε) : ((throw e : Action ι σ Q ε β) >>= k) = Prog.ret (.error e) := rfl

theorem pure_eq (a : α) : (pure a : Action ι σ Q ε α) = Prog.ret (.ok a) := rfl

theorem throw_eq (e : ε) : (throw e : Action ι σ Q ε α) = Prog.ret (.error e) := rfl

section Each

variable {φ : {β : Type} → Q β → Prop}

/-- Two programs that may fail, one after the other. -/
theorem each_andThen {p : Action ι σ Q ε β} (hp : p.run.Each φ) (hk : ∀ b, (k b).run.Each φ) :
    (p >>= k).run.Each φ := by
  refine Prog.each_bind hp fun b => ?_
  cases b with
  | ok b => exact hk b
  | error e => exact trivial

theorem each_ofProg {p : Prog ι σ Q β} (hp : p.Each φ) :
    (ofProg p : Action ι σ Q ε β).run.Each φ :=
  Prog.each_bind hp fun _ => trivial

theorem each_transaction {commit rollback : Q Unit} {body : Action ι σ Q ε α} (hc : φ commit)
    (hr : φ rollback) (hb : body.run.Each φ) : (transaction commit rollback body).run.Each φ := by
  refine Prog.each_bind hb fun b => ?_
  cases b with
  | ok a => exact ⟨hc, fun _ => trivial⟩
  | error e => exact ⟨hr, fun _ => trivial⟩

end Each

end Action

/-! ### Systems and their steps -/

/-- **A system**: what the queries do, how time acts on the store, and the program
that process `i` runs for a request. -/
structure System (ι σ ρ α : Type) (Q : Type → Type 1) where
  /-- The answer to a query and the new store, or `none` while the process waits. -/
  run : {β : Type} → Q β → ι → σ → Option (β × σ)
  /-- The query that ends a transaction without publishing it. -/
  rollback : Q Unit
  /-- Time passes. -/
  tick : ℕ → σ → σ
  /-- The program of a request. -/
  program : ι → ρ → Prog ι σ Q α

/-- Where a process is. -/
inductive Proc (ι σ ρ α : Type) (Q : Type → Type 1) : Type 1
  /-- The process has not been used. -/
  | idle
  /-- The process serves request `r` and has `p` left to run. -/
  | running (r : ρ) (p : Prog ι σ Q α)
  /-- The process died. -/
  | dead

theorem Proc.running_ne_idle {r : ρ} {p : Prog ι σ Q α} :
    (Proc.running r p : Proc ι σ ρ α Q) ≠ .idle := by
  rintro ⟨⟩

theorem Proc.dead_ne_idle : (Proc.dead : Proc ι σ ρ α Q) ≠ .idle := by
  rintro ⟨⟩

/-- A configuration: the store, and the processes. -/
structure Config (ι σ ρ α : Type) (Q : Type → Type 1) : Type 1 where
  /-- The shared store. -/
  db : σ
  /-- The processes. -/
  procs : ι → Proc ι σ ρ α Q

/-- The pool with process `i` replaced. -/
def setProc [DecidableEq ι] (i : ι) (q : Proc ι σ ρ α Q) (procs : ι → Proc ι σ ρ α Q) :
    ι → Proc ι σ ρ α Q :=
  fun j => if j = i then q else procs j

section SetProc

variable [DecidableEq ι] {i j : ι} {q : Proc ι σ ρ α Q} {procs : ι → Proc ι σ ρ α Q}

@[simp] theorem setProc_self : setProc i q procs i = q := if_pos rfl

theorem setProc_of_ne (h : j ≠ i) : setProc i q procs j = procs j := if_neg h

/-- A running process of the new pool is the one that was put there, or an old one. -/
theorem setProc_running {r : ρ} {p : Prog ι σ Q α} (h : setProc i q procs j = .running r p) :
    (j = i ∧ q = .running r p) ∨ (j ≠ i ∧ procs j = .running r p) := by
  rcases eq_or_ne j i with rfl | hne
  · rw [setProc_self] at h
    exact Or.inl ⟨rfl, h⟩
  · rw [setProc_of_ne hne] at h
    exact Or.inr ⟨hne, h⟩

/-- An unused process of the new pool is an old one, if the new process is in use. -/
theorem setProc_idle (h : setProc i q procs j = .idle) (hq : q ≠ .idle) :
    j ≠ i ∧ procs j = .idle := by
  rcases eq_or_ne j i with rfl | hne
  · rw [setProc_self] at h
    exact absurd h hq
  · rw [setProc_of_ne hne] at h
    exact ⟨hne, h⟩

end SetProc

/-- The initial configuration over a store: nothing is running. -/
def Config.initial (s : σ) : Config ι σ ρ α Q := ⟨s, fun _ => .idle⟩

/-- Process `i` has served request `r`, with result `a`. -/
def Config.Served (c : Config ι σ ρ α Q) (i : ι) (r : ρ) (a : α) : Prop :=
  c.procs i = .running r (.ret a)

instance (p : Proc ι σ ρ α Q) : Decidable (p = .idle) :=
  match p with
  | .idle => isTrue rfl
  | .running _ _ => isFalse nofun
  | .dead => isFalse nofun

instance [DecidableEq ρ] [DecidableEq α] (p : Proc ι σ ρ α Q) (r : ρ) (a : α) :
    Decidable (p = .running r (.ret a)) :=
  match p with
  | .idle => isFalse nofun
  | .dead => isFalse nofun
  | .running _ (.read _ _) => isFalse nofun
  | .running _ (.query _ _) => isFalse nofun
  | .running r' (.ret a') =>
    if h : r' = r ∧ a' = a then isTrue (by rw [h.1, h.2])
    else isFalse fun heq => h (by cases heq; exact ⟨rfl, rfl⟩)

instance [DecidableEq ρ] [DecidableEq α] (c : Config ι σ ρ α Q) (i : ι) (r : ρ) (a : α) :
    Decidable (c.Served i r a) :=
  inferInstanceAs (Decidable (c.procs i = .running r (.ret a)))

/-- A condition on the queries a process runs, and on the stores it runs them in. -/
abbrev Proviso (ι σ : Type) (Q : Type → Type 1) := {β : Type} → ι → Q β → σ → Prop

variable [DecidableEq ι] (S : System ι σ ρ α Q) (C : Proviso ι σ Q)

/-- **One step of a system**, under the proviso `C` on the queries that are run. -/
inductive Step : Config ι σ ρ α Q → Config ι σ ρ α Q → Prop
  /-- A request arrives, at a process that has not been used. -/
  | arrive {c : Config ι σ ρ α Q} (i : ι) (r : ρ) (hi : c.procs i = .idle) :
      Step c ⟨c.db, setProc i (.running r (S.program i r)) c.procs⟩
  /-- A process looks at the store. -/
  | read {c : Config ι σ ρ α Q} {i : ι} {r : ρ} {δ : Type} {f : ι → σ → δ}
      {k : δ → Prog ι σ Q α} (hi : c.procs i = .running r (.read f k)) :
      Step c ⟨c.db, setProc i (.running r (k (f i c.db))) c.procs⟩
  /-- A process runs its next query. -/
  | query {c : Config ι σ ρ α Q} {i : ι} {r : ρ} {δ : Type} {q : Q δ}
      {k : δ → Prog ι σ Q α} {b : δ} {s : σ} (hi : c.procs i = .running r (.query q k))
      (hC : C i q c.db) (hq : S.run q i c.db = some (b, s)) :
      Step c ⟨s, setProc i (.running r (k b)) c.procs⟩
  /-- A process dies, and its open transaction is rolled back. -/
  | crash {c : Config ι σ ρ α Q} {i : ι} {r : ρ} {p : Prog ι σ Q α} {s : σ}
      (hi : c.procs i = .running r p) (hC : C i S.rollback c.db)
      (hq : S.run S.rollback i c.db = some ((), s)) : Step c ⟨s, setProc i .dead c.procs⟩
  /-- Time passes. -/
  | tick {c : Config ι σ ρ α Q} (n : ℕ) : Step c ⟨S.tick n c.db, c.procs⟩

/-- **The configurations a system reaches** from another one, by steps whose queries
all satisfy the proviso. -/
abbrev Reachable : Config ι σ ρ α Q → Config ι σ ρ α Q → Prop :=
  Relation.ReflTransGen (Step S C)

omit [DecidableEq ι] in
/-- The proviso that every query satisfies. -/
def anyQuery : Proviso ι σ Q := fun _ _ _ => True

/-! ### Schedules -/

/-- An event of a schedule. -/
inductive Event (ι ρ : Type)
  /-- A request arrives. -/
  | arrive (i : ι) (r : ρ)
  /-- A process takes its next step. -/
  | run (i : ι)
  /-- A process dies. -/
  | crash (i : ι)
  /-- Time passes. -/
  | tick (n : ℕ)

/-- The configuration after an event, when the event can happen. -/
def exec1 : Event ι ρ → Config ι σ ρ α Q → Option (Config ι σ ρ α Q)
  | .arrive i r, c => match c.procs i with
    | .idle => some ⟨c.db, setProc i (.running r (S.program i r)) c.procs⟩
    | _ => none
  | .run i, c => match c.procs i with
    | .running r (.read f k) => some ⟨c.db, setProc i (.running r (k (f i c.db))) c.procs⟩
    | .running r (.query q k) => match S.run q i c.db with
      | some (b, s) => some ⟨s, setProc i (.running r (k b)) c.procs⟩
      | none => none
    | _ => none
  | .crash i, c => match c.procs i with
    | .running _ _ => match S.run S.rollback i c.db with
      | some (_, s) => some ⟨s, setProc i .dead c.procs⟩
      | none => none
    | _ => none
  | .tick n, c => some ⟨S.tick n c.db, c.procs⟩

/-- The configuration after a schedule. -/
def exec : List (Event ι ρ) → Config ι σ ρ α Q → Option (Config ι σ ρ α Q)
  | [], c => some c
  | e :: es, c => (exec1 S e c).bind (exec es)

variable {S}

theorem step_of_exec1 {e : Event ι ρ} {c d : Config ι σ ρ α Q} (h : exec1 S e c = some d) :
    Step S anyQuery c d := by
  cases e with
  | arrive i r =>
    simp only [exec1] at h
    split at h
    · rename_i hi
      cases h
      exact .arrive i r hi
    · cases h
  | run i =>
    simp only [exec1] at h
    split at h
    · rename_i hi
      cases h
      exact .read hi
    · rename_i hi
      split at h
      · rename_i hq
        cases h
        exact .query hi trivial hq
      · cases h
    · cases h
  | crash i =>
    simp only [exec1] at h
    split at h
    · rename_i hi
      split at h
      · rename_i hq
        cases h
        exact .crash hi trivial hq
      · cases h
    · cases h
  | tick n =>
    cases h
    exact .tick n

/-- **A schedule that can be run is an interleaving.** -/
theorem reachable_of_exec {es : List (Event ι ρ)} {c d : Config ι σ ρ α Q}
    (h : exec S es c = some d) : Reachable S anyQuery c d := by
  induction es generalizing c with
  | nil =>
    cases h
    exact .refl
  | cons e es ih =>
    obtain ⟨c', h1, h2⟩ := Option.bind_eq_some_iff.mp h
    exact .head (step_of_exec1 h1) (ih h2)

/-- A step under a proviso is a step. -/
theorem Step.any {C : Proviso ι σ Q} {c d : Config ι σ ρ α Q} (h : Step S C c d) :
    Step S anyQuery c d := by
  cases h with
  | arrive i r hi => exact .arrive i r hi
  | read hi => exact .read hi
  | query hi _ hq => exact .query hi trivial hq
  | crash hi _ hq => exact .crash hi trivial hq
  | tick n => exact .tick n

/-- A run under a proviso is a run. -/
theorem Reachable.any {C : Proviso ι σ Q} {c d : Config ι σ ρ α Q} (h : Reachable S C c d) :
    Reachable S anyQuery c d :=
  Relation.ReflTransGen.mono (fun _ _ hstep => hstep.any) c d h

/-- **What comes to hold along a run comes to hold in one of its steps.** -/
theorem Reachable.exists_step {C : Proviso ι σ Q} {c d : Config ι σ ρ α Q}
    (h : Reachable S C c d) (P : σ → Prop) (hc : ¬ P c.db) (hd : P d.db) :
    ∃ e e', Reachable S C c e ∧ Step S C e e' ∧ Reachable S C e' d ∧ ¬ P e.db ∧ P e'.db := by
  induction h with
  | refl => exact absurd hd hc
  | @tail e e' hrest hstep ih =>
    by_cases he : P e.db
    · obtain ⟨f, f', hf, hstep', hf', hP⟩ := ih he
      exact ⟨f, f', hf, hstep', hf'.tail hstep, hP⟩
    · exact ⟨e, e', hrest, hstep, .refl, he, hd⟩

/-- A process that died stays dead. -/
theorem Reachable.dead {C : Proviso ι σ Q} {c d : Config ι σ ρ α Q} (h : Reachable S C c d) {i : ι}
    (hi : c.procs i = .dead) : d.procs i = .dead := by
  induction h with
  | refl => exact hi
  | @tail d e _ hstep ih =>
    have hother : ∀ {j : ι} {q : Proc ι σ ρ α Q}, d.procs j ≠ .dead →
        setProc j q d.procs i = .dead := by
      intro j q hj
      have hne : i ≠ j := by
        rintro rfl
        exact hj ih
      rw [setProc_of_ne hne, ih]
    cases hstep with
    | arrive j r hj => exact hother (by rw [hj]; nofun)
    | read hj => exact hother (by rw [hj]; nofun)
    | query hj => exact hother (by rw [hj]; nofun)
    | crash hj => exact hother (by rw [hj]; nofun)
    | tick n => exact ih

/-- A process that has served its request is done. -/
theorem Reachable.served {C : Proviso ι σ Q} {c d : Config ι σ ρ α Q} (h : Reachable S C c d)
    {i : ι} {r : ρ} {a : α} (hi : c.Served i r a) : d.Served i r a ∨ d.procs i = .dead := by
  induction h with
  | refl => exact Or.inl hi
  | @tail d e hrest hstep ih =>
    rcases ih with ih | ih
    · have hother : ∀ {j : ι} {q : Proc ι σ ρ α Q}, j ≠ i → setProc j q d.procs i = d.procs i :=
        fun hne => setProc_of_ne hne.symm
      rw [Config.Served] at ih ⊢
      cases hstep with
      | arrive j r' hj =>
        have hne : j ≠ i := by
          rintro rfl
          rw [ih] at hj
          cases hj
        exact Or.inl ((hother hne).trans ih)
      | @read j r' δ f k hj =>
        have hne : j ≠ i := by
          rintro rfl
          rw [ih] at hj
          cases hj
        exact Or.inl ((hother hne).trans ih)
      | @query j r' δ q k b s hj =>
        have hne : j ≠ i := by
          rintro rfl
          rw [ih] at hj
          cases hj
        exact Or.inl ((hother hne).trans ih)
      | @crash j r' p s hj =>
        rcases eq_or_ne j i with rfl | hne
        · exact Or.inr setProc_self
        · exact Or.inl ((hother hne).trans ih)
      | tick n => exact Or.inl ih
    · exact Or.inr (Reachable.dead (.single hstep) ih)

/-- A process has one result. -/
theorem Reachable.result {C : Proviso ι σ Q} {c d : Config ι σ ρ α Q} (h : Reachable S C c d)
    {i : ι} {r r' : ρ} {a b : α} (hi : c.Served i r a) (hd : d.Served i r' b) : a = b := by
  rcases Reachable.served h hi with hsame | hdead
  · rw [Config.Served, hsame] at hd
    cases hd
    rfl
  · rw [Config.Served, hdead] at hd
    cases hd

variable (S) in
/-- The configuration at the end of a schedule that can be run. -/
def afterRun (es : List (Event ι ρ)) (c : Config ι σ ρ α Q)
    (h : (exec S es c).isSome = true) : Config ι σ ρ α Q :=
  (exec S es c).get h

theorem reachable_afterRun {es : List (Event ι ρ)} {c : Config ι σ ρ α Q}
    (h : (exec S es c).isSome = true) : Reachable S anyQuery c (afterRun S es c h) :=
  reachable_of_exec (Option.some_get h).symm

/-- A schedule that ends as `P` says ends in a configuration that is reached. -/
theorem exists_of_exec (S : System ι σ ρ α Q) (es : List (Event ι ρ)) (c : Config ι σ ρ α Q)
    (P : Config ι σ ρ α Q → Bool) (h : (exec S es c).any P = true) :
    ∃ d, Reachable S anyQuery c d ∧ P d = true := by
  obtain ⟨d, hd, hP⟩ := (Option.any_eq_true _ _).mp h
  exact ⟨d, reachable_of_exec hd, hP⟩

/-- Two schedules, one after the other. -/
theorem exists_of_exec_exec (S : System ι σ ρ α Q) (es fs : List (Event ι ρ))
    (c : Config ι σ ρ α Q) (P : Config ι σ ρ α Q → Config ι σ ρ α Q → Bool)
    (h : ((exec S es c).any fun d => (exec S fs d).any (P d)) = true) :
    ∃ d e, Reachable S anyQuery c d ∧ Reachable S anyQuery d e ∧ P d e = true := by
  obtain ⟨d, hd, hP⟩ := (Option.any_eq_true _ _).mp h
  obtain ⟨e, he, hP⟩ := (Option.any_eq_true _ _).mp hP
  exact ⟨d, e, reachable_of_exec hd, reachable_of_exec he, hP⟩

/-- Two schedules, with one step between them. -/
theorem exists_of_exec_step_exec (S : System ι σ ρ α Q) (es : List (Event ι ρ)) (ev : Event ι ρ)
    (fs : List (Event ι ρ)) (c : Config ι σ ρ α Q)
    (P : Config ι σ ρ α Q → Config ι σ ρ α Q → Config ι σ ρ α Q → Bool)
    (h : ((exec S es c).any fun d => (exec1 S ev d).any fun d' => (exec S fs d').any (P d d'))
      = true) :
    ∃ d d' e, Reachable S anyQuery c d ∧ Step S anyQuery d d' ∧ Reachable S anyQuery d' e ∧
      P d d' e = true := by
  obtain ⟨d, hd, h⟩ := (Option.any_eq_true _ _).mp h
  obtain ⟨d', hd', h⟩ := (Option.any_eq_true _ _).mp h
  obtain ⟨e, he, hP⟩ := (Option.any_eq_true _ _).mp h
  exact ⟨d, d', e, reachable_of_exec hd, step_of_exec1 hd', reachable_of_exec he, hP⟩

/-- The system that only answers the queries which pass a check. -/
def System.guarded (S : System ι σ ρ α Q) (check : {β : Type} → ι → Q β → σ → Bool) :
    System ι σ ρ α Q :=
  { S with run := fun q i s => if check i q s then S.run q i s else none }

/-- A step of the guarded system keeps a proviso that its check implies. -/
theorem step_of_guarded {C : Proviso ι σ Q} {check : {β : Type} → ι → Q β → σ → Bool}
    (hcheck : ∀ {β : Type} i (q : Q β) s, check i q s = true → C i q s)
    {c d : Config ι σ ρ α Q} (h : Step (S.guarded check) anyQuery c d) : Step S C c d := by
  have hrun : ∀ {β : Type} {q : Q β} {i : ι} {s : σ} {r : β × σ},
      (S.guarded check).run q i s = some r → C i q s ∧ S.run q i s = some r := by
    intro β q i s r hr
    simp only [System.guarded] at hr
    split at hr
    · rename_i hpass
      exact ⟨hcheck i q s hpass, hr⟩
    · cases hr
  cases h with
  | arrive i r hi => exact .arrive i r hi
  | read hi => exact .read hi
  | query hi _ hq => exact .query hi (hrun hq).1 (hrun hq).2
  | crash hi _ hq => exact .crash hi (hrun hq).1 (hrun hq).2
  | tick n => exact .tick n

/-- **A run of the guarded system keeps a proviso that its check implies.** -/
theorem reachable_of_guarded {C : Proviso ι σ Q} {check : {β : Type} → ι → Q β → σ → Bool}
    (hcheck : ∀ {β : Type} i (q : Q β) s, check i q s = true → C i q s)
    {c d : Config ι σ ρ α Q} (h : Reachable (S.guarded check) anyQuery c d) :
    Reachable S C c d := by
  induction h with
  | refl => exact .refl
  | tail _ hstep ih => exact ih.tail (step_of_guarded hcheck hstep)

end ReadCommitted
