import Marketplace.ReadCommitted.Program

/-!
# Programs that end

A program is a tree, so it ends; how soon may depend on the answers that it gets. It ends within `n`
steps (`ReadCommitted.Prog.EndsWithin`) when it has made no more than `n` reads and queries by then,
whatever is answered.
-/

namespace ReadCommitted

variable {ι σ α β γ ε : Type} {Q : Type → Type 1}

namespace Prog

/-- **The program ends within `n` steps**, whatever it is answered. -/
def EndsWithin : Prog ι σ Q α → ℕ → Prop
  | .ret _, _ => True
  | .read _ k, n => ∃ m, n = m + 1 ∧ ∀ b, (k b).EndsWithin m
  | .query _ k, n => ∃ m, n = m + 1 ∧ ∀ b, (k b).EndsWithin m

variable {p : Prog ι σ Q α} {f : α → Prog ι σ Q γ} {m n : ℕ}

theorem EndsWithin.mono (h : p.EndsWithin m) (hmn : m ≤ n) : p.EndsWithin n := by
  induction p generalizing m n with
  | ret a => trivial
  | read g k ih | query q k ih =>
    obtain ⟨m, rfl, hk⟩ := h
    obtain ⟨n, rfl⟩ : ∃ l, n = l + 1 := ⟨n - 1, by omega⟩
    exact ⟨n, rfl, fun b => ih b (hk b) (by omega)⟩

/-- One program after another. -/
theorem endsWithin_bind (hp : p.EndsWithin m) (hf : ∀ a, (f a).EndsWithin n) :
    (p >>= f).EndsWithin (m + n) := by
  induction p generalizing m with
  | ret a => exact (hf a).mono (by omega)
  | read g k ih | query q k ih =>
    obtain ⟨m, rfl, hk⟩ := hp
    exact ⟨m + n, by omega, fun b => ih b (hk b)⟩

end Prog

namespace Action

/-- One program that may fail, after another. -/
theorem endsWithin_andThen {p : Action ι σ Q ε β} {k : β → Action ι σ Q ε α} {m n : ℕ}
    (hp : p.run.EndsWithin m) (hk : ∀ b, (k b).run.EndsWithin n) :
    (p >>= k).run.EndsWithin (m + n) := by
  refine Prog.endsWithin_bind hp fun r => ?_
  cases r with
  | ok b => exact hk b
  | error e => trivial

end Action

end ReadCommitted
