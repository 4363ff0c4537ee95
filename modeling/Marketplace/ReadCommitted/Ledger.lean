import Marketplace.ReadCommitted.Faults

/-!
# What the queries of a program add up to

A *ledger* is kept beside a program: `book q b` enters that the query `q` was answered `b`. A
program accounts for itself (`ReadCommitted.Prog.Accounts`) when, whatever its queries are answered,
the ledger satisfies `I` at every step, and at the end stands in the relation `post` to the result.

Nothing is known of the answers, so what is shown of a program holds in every store and beside any
other processes (`ReadCommitted.accounts_of_served`); and as `I` holds at every step, it holds
where the program fails early (`ReadCommitted.Prog.Accounts.failAt`).
-/

namespace ReadCommitted

variable {ι σ ρ α β γ ε : Type} {Q : Type → Type 1}

namespace Prog

/-- **The program accounts for itself**: starting with ledger `g`, its ledgers all satisfy `I`, and
the last one and the result satisfy `post`. -/
def Accounts (book : {β : Type} → Q β → β → γ → γ) (I : γ → Prop) (post : γ → α → Prop) :
    Prog ι σ Q α → γ → Prop
  | ret a, g => I g ∧ post g a
  | read _ k, g => I g ∧ ∀ b, (k b).Accounts book I post g
  | query q k, g => I g ∧ ∀ b, (k b).Accounts book I post (book q b g)

variable {book : {β : Type} → Q β → β → γ → γ} {I : γ → Prop} {post post' : γ → α → Prop}
  {p : Prog ι σ Q α} {g : γ}

/-- What is known of every step may be weakened, and of the end. -/
theorem Accounts.weaken {J : γ → Prop} (h : p.Accounts book I post g) (hI : ∀ g, I g → J g)
    (hpost : ∀ g a, I g → post g a → post' g a) : p.Accounts book J post' g := by
  induction p generalizing g with
  | ret a => exact ⟨hI g h.1, hpost g a h.1 h.2⟩
  | read f k ih => exact ⟨hI g h.1, fun b => ih b (h.2 b)⟩
  | query q k ih => exact ⟨hI g h.1, fun b => ih b (h.2 b)⟩

/-- What is known of the end may be weakened. -/
theorem Accounts.mono (h : p.Accounts book I post g) (hpost : ∀ g a, I g → post g a → post' g a) :
    p.Accounts book I post' g :=
  h.weaken (fun _ hg => hg) hpost

/-- Where everything will do, nothing has to be known of the program. -/
theorem accounts_of_forall (hI : ∀ g, I g) (hpost : ∀ g a, post g a) : p.Accounts book I post g := by
  induction p generalizing g with
  | ret a => exact ⟨hI g, hpost g a⟩
  | read f k ih => exact ⟨hI g, fun b => ih b⟩
  | query q k ih => exact ⟨hI g, fun b => ih b⟩

/-- One program after another. -/
theorem accounts_bind {f : α → Prog ι σ Q β} {post : γ → β → Prop}
    (h : p.Accounts book I (fun m a => (f a).Accounts book I post m) g) :
    (p >>= f).Accounts book I post g := by
  induction p generalizing g with
  | ret a => exact h.2
  | read f k ih => exact ⟨h.1, fun b => ih b (h.2 b)⟩
  | query q k ih => exact ⟨h.1, fun b => ih b (h.2 b)⟩

/-- A program whose queries are not entered leaves the ledger alone. -/
theorem Each.accounts (h : p.Each fun q => ∀ b g, book q b g = g) (hg : I g) :
    p.Accounts book I (fun m _ => m = g) g := by
  induction p with
  | ret a => exact ⟨hg, rfl⟩
  | read f k ih => exact ⟨hg, fun b => ih b (h b)⟩
  | query q k ih =>
    refine ⟨hg, fun b => ?_⟩
    have hsame : book q b g = g := h.1 b g
    show (k b).Accounts book I _ (book q b g)
    rw [hsame]
    exact ih b (h.2 b)

/-- **A program that accounts for itself may fail anywhere.** -/
theorem Accounts.failAt {a : α} (h : p.Accounts book I post g) (fault : Option ℕ)
    (ha : ∀ g, I g → post g a) : (p.failAt a fault).Accounts book I post g := by
  rcases fault with _ | n
  · rwa [failAt_none]
  induction p generalizing g n with
  | ret b =>
    cases n with
    | zero => exact ⟨h.1, ha g h.1⟩
    | succ n => exact h
  | read f k ih =>
    cases n with
    | zero => exact ⟨h.1, ha g h.1⟩
    | succ n => exact ⟨h.1, fun b => ih b (h.2 b) n⟩
  | query q k ih =>
    cases n with
    | zero => exact ⟨h.1, ha g h.1⟩
    | succ n => exact ⟨h.1, fun b => ih b (h.2 b) n⟩

end Prog

namespace Action

variable {book : {β : Type} → Q β → β → γ → γ} {I : γ → Prop} {g : γ}

/-- One program that may fail after another: an error of the first is the result. -/
theorem accounts_andThen {p : Action ι σ Q ε β} {k : β → Action ι σ Q ε α}
    {post : γ → Except ε α → Prop} (mid : γ → β → Prop)
    (hp : p.run.Accounts book I (fun m r => ∀ b, r = .ok b → mid m b) g)
    (herror : ∀ m e, I m → post m (.error e))
    (hk : ∀ m b, I m → mid m b → (k b).run.Accounts book I post m) :
    (p >>= k).run.Accounts book I post g := by
  refine Prog.accounts_bind (hp.mono fun m r hm hr => ?_)
  cases r with
  | ok b => exact hk m b hm (hr b rfl)
  | error e => exact ⟨hm, herror m e hm⟩

/-- A program that does not fail, before another one. -/
theorem accounts_ofProg_andThen {p : Prog ι σ Q β} {k : β → Action ι σ Q ε α}
    {post : γ → Except ε α → Prop}
    (h : p.Accounts book I (fun m b => (k b).run.Accounts book I post m) g) :
    (ofProg p >>= k).run.Accounts book I post g := by
  rw [ofProg_bind]
  exact Prog.accounts_bind h

/-- **A transaction**: the commit is entered after the body, or the rollback. -/
theorem accounts_transaction {commit rollback : Q Unit} {body : Action ι σ Q ε α}
    {post : γ → Except ε α → Prop}
    (h : body.run.Accounts book I
      (fun m r => (∀ a, r = .ok a → I (book commit () m) ∧ post (book commit () m) r) ∧
        ∀ e, r = .error e → I (book rollback () m) ∧ post (book rollback () m) r) g) :
    (transaction commit rollback body).run.Accounts book I post g := by
  refine Prog.accounts_bind (h.mono fun m r hm hr => ?_)
  cases r with
  | ok a => exact ⟨hm, fun _ => hr.1 a rfl⟩
  | error e => exact ⟨hm, fun _ => hr.2 e rfl⟩

end Action

/-- **What is shown of a program holds in every run**: when a request has been served, there is a
ledger that satisfies `I` and stands in the relation `post` to the answer. -/
theorem accounts_of_served [DecidableEq ι] {S : System ι σ ρ α Q} {C : Proviso ι σ Q}
    {book : {β : Type} → Q β → β → γ → γ} {I : γ → Prop} {post : ι → ρ → γ → α → Prop} {g₀ : γ}
    (hprog : ∀ i r, (S.program i r).Accounts book I (post i r) g₀) {s₀ : σ}
    {c : Config ι σ ρ α Q} (h : Reachable S C (.initial s₀) c) {i : ι} {r : ρ} {a : α}
    (hserved : c.Served i r a) : ∃ g, I g ∧ post i r g a :=
  kept_of_reachable (P := fun i r p => ∃ g, p.Accounts book I (post i r) g)
    (fun _ _ => ⟨fun ⟨g, hg⟩ b => ⟨g, hg.2 b⟩, fun ⟨_, hg⟩ b => ⟨_, hg.2 b⟩⟩)
    (fun i r => ⟨g₀, hprog i r⟩) h hserved

end ReadCommitted
