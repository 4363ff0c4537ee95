import Marketplace.ReadCommitted.Undisturbed
import Marketplace.ReadCommitted.Faults

/-!
# Requests that are served one after the other

A run in which every request is served to its end before the next one arrives
(`ReadCommitted.Serial`) is a run of the system like any other. What is known of such a run is
what is known of the programs alone: of a program that only time disturbs, what it ends with
(`ReadCommitted.Prog.Undisturbed.of_runs`), and of any program, what all its queries keep
(`ReadCommitted.Prog.Runs.keeps`).

A query either belongs to the open transaction, or stands on its own, or ends the transaction. A
program that ends every transaction it has begun, and issues nothing on its own within one
(`ReadCommitted.Prog.Closes`), leaves no transaction open.
-/

namespace ReadCommitted

variable {ι σ ρ α γ κ β : Type} {Q : Type → Type 1} {S : System ι σ ρ α Q} {C : Proviso ι σ Q} {i : ι}

/-! ### Runs of one program -/

namespace Prog

section

variable (S C i)

/-- **A run of a program** from a store to its end, with nothing but time between its steps. -/
inductive Runs : Prog ι σ Q γ → σ → γ → σ → Prop
  /-- The program is over. -/
  | ret (a : γ) (s : σ) : Runs (.ret a) s a s
  /-- Some time passes, and the program looks at the store. -/
  | read {β : Type} {f : ι → σ → β} {k : β → Prog ι σ Q γ} {s s' : σ} {a : γ} (n : ℕ)
      (h : Runs (k (f i (S.tick n s))) (S.tick n s) a s') : Runs (.read f k) s a s'
  /-- Some time passes, and the program runs a query. -/
  | query {β : Type} {q : Q β} {k : β → Prog ι σ Q γ} {s t s' : σ} {b : β} {a : γ} (n : ℕ)
      (hC : C i q (S.tick n s)) (hq : S.run q i (S.tick n s) = some (b, t))
      (h : Runs (k b) t a s') : Runs (.query q k) s a s'

end

variable {p : Prog ι σ Q γ} {s s' : σ} {a : γ}

/-- **What an undisturbed program ends with.** -/
theorem Undisturbed.of_runs {post : γ → List (Sigma Q) → σ → Prop} {log : List (Sigma Q)}
    (h : p.Undisturbed S i post log s) (hrun : p.Runs S C i s a s') : ∃ log', post a log' s' := by
  induction hrun generalizing log with
  | ret a s => exact ⟨log, h⟩
  | read n _ ih => exact ih (h n)
  | query n _ hq _ ih =>
    obtain ⟨b, t, hq', h⟩ := h n
    cases hq.symm.trans hq'
    exact ih h

/-- An undisturbed program has a run. -/
theorem Undisturbed.exists_runs {post : γ → List (Sigma Q) → σ → Prop} {log : List (Sigma Q)}
    (h : p.Undisturbed S i post log s) :
    ∃ a s' log', p.Runs S anyQuery i s a s' ∧ post a log' s' := by
  induction p generalizing log s with
  | ret a => exact ⟨a, s, log, .ret a s, h⟩
  | read f k ih =>
    obtain ⟨a, s', log', hrun, hpost⟩ := ih _ (h 0)
    exact ⟨a, s', log', .read 0 hrun, hpost⟩
  | query q k ih =>
    obtain ⟨b, t, hq, h⟩ := h 0
    obtain ⟨a, s', log', hrun, hpost⟩ := ih b h
    exact ⟨a, s', log', .query 0 trivial hq hrun, hpost⟩

/-- **What a program ends with when no time passes**, if no query has to wait. -/
def result (S : System ι σ ρ α Q) (i : ι) : Prog ι σ Q γ → σ → Option (γ × σ)
  | .ret a, s => some (a, s)
  | .read f k, s => (k (f i (S.tick 0 s))).result S i (S.tick 0 s)
  | .query q k, s => (S.run q i (S.tick 0 s)).bind fun p => (k p.1).result S i p.2

/-- It has a run that ends so. -/
theorem runs_of_result (h : p.result S i s = some (a, s')) : p.Runs S anyQuery i s a s' := by
  induction p generalizing s with
  | ret b =>
    cases h
    exact .ret _ _
  | read f k ih => exact .read 0 (ih _ h)
  | query q k ih =>
    obtain ⟨⟨b, t⟩, hq, h⟩ := Option.bind_eq_some_iff.mp h
    exact .query 0 trivial hq (ih b h)

/-- A run of one program after another. -/
theorem Runs.of_bind {p : Prog ι σ Q β} {f : β → Prog ι σ Q γ} (h : (p >>= f).Runs S C i s a s') :
    ∃ b t, p.Runs S C i s b t ∧ (f b).Runs S C i t a s' := by
  induction p generalizing s with
  | ret b => exact ⟨b, s, .ret b s, h⟩
  | read g k ih =>
    cases h with
    | read n h =>
      obtain ⟨b, t, hp, hf⟩ := ih _ h
      exact ⟨b, t, .read n hp, hf⟩
  | query q k ih =>
    cases h with
    | query n hC hq h =>
      obtain ⟨b, t, hp, hf⟩ := ih _ h
      exact ⟨b, t, .query n hC hq hp, hf⟩

theorem Runs.bind {p : Prog ι σ Q β} {f : β → Prog ι σ Q γ} {b : β} {t : σ}
    (hp : p.Runs S C i s b t) (hf : (f b).Runs S C i t a s') : (p >>= f).Runs S C i s a s' := by
  induction hp with
  | ret b s => exact hf
  | read n _ ih => exact .read n (ih hf)
  | query n hC hq _ ih => exact .query n hC hq (ih hf)

/-- **What a process does alone it can do in the system**, whatever the others are at. -/
theorem Runs.reachable [DecidableEq ι] {p : Prog ι σ Q α} {a : α} (h : p.Runs S C i s a s')
    {c : Config ι σ ρ α Q} {r : ρ} (hi : c.procs i = .running r p) (hs : c.db = s) :
    Reachable S C c ⟨s', setProc i (.running r (.ret a)) c.procs⟩ := by
  have hset : ∀ {c : Config ι σ ρ α Q} {q q' : Proc ι σ ρ α Q},
      setProc i q' (setProc i q c.procs) = setProc i q' c.procs := by
    intro c q q'
    funext j
    rcases eq_or_ne j i with rfl | hne
    · rw [setProc_self, setProc_self]
    · rw [setProc_of_ne hne, setProc_of_ne hne, setProc_of_ne hne]
  induction h generalizing c with
  | ret a s =>
    have hsame : setProc i (.running r (.ret a)) c.procs = c.procs := by
      funext j
      rcases eq_or_ne j i with rfl | hne
      · rw [setProc_self, hi]
      · rw [setProc_of_ne hne]
    rw [hsame, ← hs]
  | read n _ ih =>
    subst hs
    have hrest := ih (c := ⟨_, setProc i (.running r _) c.procs⟩) setProc_self rfl
    rw [hset] at hrest
    exact .head (.tick n) (.head (.read (c := ⟨_, c.procs⟩) hi) hrest)
  | query n hC hq _ ih =>
    subst hs
    have hrest := ih (c := ⟨_, setProc i (.running r _) c.procs⟩) setProc_self rfl
    rw [hset] at hrest
    exact .head (.tick n) (.head (.query (c := ⟨_, c.procs⟩) hi hC hq) hrest)

end Prog

/-! ### Programs that leave no transaction open -/

/-- **Where the queries stand**: in the open transaction, or on their own; those that stand nowhere
end the transaction. -/
abbrev Standing (Q : Type → Type 1) := {β : Type} → Q β → Option Mode

namespace Prog

variable {mode : Standing Q} {p : Prog ι σ Q γ} {φ : {β : Type} → Q β → Prop} {isOpen : Bool}

variable (mode) in
/-- **The program leaves no transaction open**, and issues nothing on its own while one is. -/
def Closes : Bool → Prog ι σ Q γ → Prop
  | isOpen, ret _ => isOpen = false
  | isOpen, read _ k => ∀ b, Closes isOpen (k b)
  | isOpen, query q k => (mode q = some .auto → isOpen = false) ∧
      ∀ b, Closes (mode q = some .tx) (k b)

theorem Closes.bind {p : Prog ι σ Q β} {f : β → Prog ι σ Q γ} (hp : p.Closes mode isOpen)
    (hf : ∀ b, (f b).Closes mode false) : (p >>= f).Closes mode isOpen := by
  induction p generalizing isOpen with
  | ret b =>
    obtain rfl : isOpen = false := hp
    exact hf b
  | read g k ih => exact fun b => ih b (hp b)
  | query q k ih => exact ⟨hp.1, fun b => ih b (hp.2 b)⟩

/-- A program that stays in the transaction, before one that closes it. -/
theorem closes_bind {p : Prog ι σ Q β} {f : β → Prog ι σ Q γ}
    (hp : p.Each fun q => mode q = some .tx) (hf : ∀ b isOpen, (f b).Closes mode isOpen) :
    (p >>= f).Closes mode isOpen := by
  induction p generalizing isOpen with
  | ret b => exact hf b isOpen
  | read g k ih => exact fun b => ih b (hp b)
  | query q k ih =>
    refine ⟨fun h => ?_, fun b => ih b (hp.2 b)⟩
    cases hp.1.symm.trans h

/-- A program that issues everything on its own. -/
theorem closes_of_each (hp : p.Each fun q => mode q = some .auto) : p.Closes mode false := by
  induction p with
  | ret a => exact rfl
  | read g k ih => exact fun b => ih b (hp b)
  | query q k ih =>
    refine ⟨fun _ => rfl, fun b => ?_⟩
    have hne : decide (mode q = some .tx) = false := by
      rw [hp.1]
      rfl
    rw [hne]
    exact ih b (hp.2 b)

/-- **What every query of a program keeps, a run of it keeps.** -/
theorem Runs.keeps {s s' : σ} {a : γ} (h : p.Runs S C i s a s') (J : Bool → σ → Prop)
    (hclose : p.Closes mode isOpen) (heach : p.Each φ)
    (htick : ∀ isOpen s n, J isOpen s → J isOpen (S.tick n s))
    (hstep : ∀ {β : Type} (q : Q β) isOpen s b s', φ q → (mode q = some .auto → isOpen = false) →
      C i q s → S.run q i s = some (b, s') → J isOpen s → J (mode q = some .tx) s')
    (hJ : J isOpen s) : J false s' := by
  induction h generalizing isOpen with
  | ret a s =>
    obtain rfl : isOpen = false := hclose
    exact hJ
  | read n _ ih => exact ih (hclose _) (heach _) (htick _ _ n hJ)
  | query n hC hq _ ih =>
    exact ih (hclose.2 _) (heach.2 _) (hstep _ _ _ _ _ heach.1 hclose.1 hC hq (htick _ _ n hJ))

end Prog

namespace Action

variable {ε : Type} {mode : Standing Q}

theorem closes_andThen {p : Action ι σ Q ε β} {k : β → Action ι σ Q ε γ}
    (hp : p.run.Closes mode false) (hk : ∀ b, (k b).run.Closes mode false) :
    (p >>= k).run.Closes mode false := by
  refine Prog.Closes.bind hp fun r => ?_
  cases r with
  | ok b => exact hk b
  | error e => exact rfl

/-- **A transaction is closed**, however its body ends. -/
theorem closes_transaction {commit rollback : Q Unit} {body : Action ι σ Q ε γ}
    (hc : mode commit = none) (hr : mode rollback = none)
    (hbody : body.run.Each fun q => mode q = some .tx) :
    (transaction commit rollback body).run.Closes mode false := by
  refine Prog.closes_bind hbody fun r isOpen => ?_
  cases r with
  | ok a =>
    refine ⟨fun h => ?_, fun _ => ?_⟩
    · cases hc.symm.trans h
    · have hne : decide (mode commit = some .tx) = false := by
        rw [hc]
        rfl
      exact hne
  | error e =>
    refine ⟨fun h => ?_, fun _ => ?_⟩
    · cases hr.symm.trans h
    · have hne : decide (mode rollback = some .tx) = false := by
        rw [hr]
        rfl
      exact hne

/-- A program that cannot fail, before another one. -/
theorem closes_ofProg {p : Prog ι σ Q β} (hp : p.Closes mode false) :
    (ofProg p : Action ι σ Q ε β).run.Closes mode false :=
  Prog.Closes.bind hp fun _ => rfl

end Action

/-! ### One request after the other -/

section Serial

variable [DecidableEq ι]

section

variable (S C)

/-- **A turn**: a request is served from its first step to its last, or time passes. -/
inductive Turn : Config ι σ ρ α Q → Config ι σ ρ α Q → Prop
  /-- A process that has not been used serves a request. -/
  | serve {c : Config ι σ ρ α Q} {i : ι} {r : ρ} {a : α} {s : σ} (hi : c.procs i = .idle)
      (h : (S.program i r).Runs S C i c.db a s) :
      Turn c ⟨s, setProc i (.running r (.ret a)) c.procs⟩
  /-- Time passes. -/
  | tick {c : Config ι σ ρ α Q} (n : ℕ) : Turn c ⟨S.tick n c.db, c.procs⟩

/-- **The configurations that are reached by turns.** -/
abbrev Serial : Config ι σ ρ α Q → Config ι σ ρ α Q → Prop := Relation.ReflTransGen (Turn S C)

end

variable {c d : Config ι σ ρ α Q}

/-- **A turn is a run of the system.** -/
theorem Turn.reachable (h : Turn S C c d) : Reachable S C c d := by
  cases h with
  | @serve i r a s hi h =>
    have hset : setProc i (.running r (.ret a)) (setProc i (.running r (S.program i r)) c.procs) =
        setProc i (.running r (.ret a)) c.procs := by
      funext j
      rcases eq_or_ne j i with rfl | hne
      · rw [setProc_self, setProc_self]
      · rw [setProc_of_ne hne, setProc_of_ne hne, setProc_of_ne hne]
    have hrest := h.reachable (c := ⟨c.db, setProc i (.running r _) c.procs⟩) setProc_self rfl
    rw [hset] at hrest
    exact .head (.arrive i r hi) hrest
  | tick n => exact .single (.tick n)

theorem Serial.reachable (h : Serial S C c d) : Reachable S C c d := by
  induction h with
  | refl => exact .refl
  | tail _ hturn ih => exact ih.trans hturn.reachable

/-- A request that ends as `P` says when no time passes is a turn. -/
theorem Serial.exists_serve (S : System ι σ ρ α Q) (i : ι) (r : ρ) (s : σ) (P : σ → Bool)
    (h : ((S.program i r).result S i s).any (fun p => P p.2) = true) :
    ∃ c, Serial S anyQuery (.initial s) c ∧ P c.db = true := by
  obtain ⟨⟨a, s'⟩, hresult, hP⟩ := (Option.any_eq_true _ _).mp h
  exact ⟨_, .single (.serve rfl (Prog.runs_of_result hresult)), hP⟩

/-- **What every turn keeps holds in every state that is reached by turns.** -/
theorem Serial.invariant (h : Serial S C c d) (J : σ → Prop)
    (hserve : ∀ i r a s s', (S.program i r).Runs S C i s a s' → J s → J s')
    (htick : ∀ s n, J s → J (S.tick n s)) (hJ : J c.db) : J d.db := by
  induction h with
  | refl => exact hJ
  | tail _ hturn ih =>
    cases hturn with
    | serve hi hrun => exact hserve _ _ _ _ _ hrun ih
    | tick n => exact htick _ n ih

end Serial

end ReadCommitted
