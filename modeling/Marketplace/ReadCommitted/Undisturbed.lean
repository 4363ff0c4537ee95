import Marketplace.ReadCommitted.Alone

/-!
# Programs that only time disturbs

What a program does when nothing but time passes between its steps
(`ReadCommitted.Prog.Undisturbed`): it runs to its end, and its result, the queries it has issued
and the store it leaves are as `post` says. Without the time this is a program that runs alone
(`ReadCommitted.Prog.Undisturbed.alone`).
-/

namespace ReadCommitted

variable {ι σ ρ α γ β : Type} {Q : Type → Type 1} {S : System ι σ ρ α Q} {i : ι}

namespace Prog

/-- **The program, run from a store while only time passes**, after some queries, ends, as `post`
says. -/
def Undisturbed (S : System ι σ ρ α Q) (i : ι) (post : γ → List (Sigma Q) → σ → Prop) :
    Prog ι σ Q γ → List (Sigma Q) → σ → Prop
  | ret a, log, s => post a log s
  | read f k, log, s => ∀ n, (k (f i (S.tick n s))).Undisturbed S i post log (S.tick n s)
  | query q k, log, s => ∀ n, ∃ b s', S.run q i (S.tick n s) = some (b, s') ∧
      (k b).Undisturbed S i post (log ++ [⟨_, q⟩]) s'

variable {post : γ → List (Sigma Q) → σ → Prop} {p : Prog ι σ Q γ} {log : List (Sigma Q)} {s : σ}

theorem Undisturbed.mono {post' : γ → List (Sigma Q) → σ → Prop} (h : p.Undisturbed S i post log s)
    (hpost : ∀ a log s, post a log s → post' a log s) : p.Undisturbed S i post' log s := by
  induction p generalizing log s with
  | ret a => exact hpost a log s h
  | read f k ih => exact fun n => ih _ (h n)
  | query q k ih =>
    intro n
    obtain ⟨b, s', hq, h⟩ := h n
    exact ⟨b, s', hq, ih b h⟩

/-- One program after another. -/
theorem Undisturbed.bind {p : Prog ι σ Q β} {f : β → Prog ι σ Q γ}
    (h : p.Undisturbed S i (fun b => (f b).Undisturbed S i post) log s) :
    (p >>= f).Undisturbed S i post log s := by
  induction p generalizing log s with
  | ret b => exact h
  | read g k ih => exact fun n => ih _ (h n)
  | query q k ih =>
    intro n
    obtain ⟨b, s', hq, h⟩ := h n
    exact ⟨b, s', hq, ih b h⟩

/-- **The rule for a loop over a list**, with what is known of the count before each round. -/
theorem Undisturbed.countsEach {κ : Type} {f : κ → Prog ι σ Q Bool} (I : List κ → ℕ → σ → Prop)
    (h : ∀ k ks n log s, I (k :: ks) n s →
      (f k).Undisturbed S i (fun hit _ => I ks (if hit then n + 1 else n)) log s) {ks : List κ} {n : ℕ}
    (hs : I ks n s) : (Prog.countEach ks f).Undisturbed S i (fun m _ => I [] (n + m)) log s := by
  induction ks generalizing n log s with
  | nil => exact hs
  | cons k ks ih =>
    refine ((h k ks n log s hs).mono fun hit _ s' hs' => ((ih hs').mono fun m _ s'' hm => ?_).bind).bind
    -- The rounds that are left count on from what this one has counted.
    have hcount : (if hit then n + 1 else n) + m = n + if hit then m + 1 else m := by
      split <;> omega
    rw [hcount] at hm
    exact hm

/-- The rule for a loop over a list, whatever it counts. -/
theorem Undisturbed.countEach {κ : Type} {f : κ → Prog ι σ Q Bool} (I : List κ → σ → Prop)
    (h : ∀ k ks log s, I (k :: ks) s → (f k).Undisturbed S i (fun _ _ => I ks) log s) {ks : List κ}
    (hs : I ks s) : (Prog.countEach ks f).Undisturbed S i (fun _ _ => I []) log s :=
  Undisturbed.countsEach (n := 0) (fun ks _ => I ks) (fun k ks _ => h k ks) hs

/-- **If no time passes either, the program runs alone.** -/
theorem Undisturbed.alone (htick : ∀ s, S.tick 0 s = s) (h : p.Undisturbed S i post log s) :
    p.Alone S i (fun a s => ∃ log, post a log s) s := by
  induction p generalizing log s with
  | ret a => exact ⟨log, h⟩
  | read f k ih =>
    have h := h 0
    rw [htick] at h
    exact ih _ h
  | query q k ih =>
    obtain ⟨b, s', hq, h⟩ := h 0
    rw [htick] at hq
    exact ⟨b, s', hq, ih b h⟩

end Prog

/-! ### Programs that may fail -/

namespace Action

variable {ε : Type} {post : Except ε γ → List (Sigma Q) → σ → Prop} {log : List (Sigma Q)} {s : σ}

/-- One program that may fail after another, when the first does not. -/
theorem undisturbed_andThen {p : Action ι σ Q ε β} {k : β → Action ι σ Q ε γ}
    (h : p.run.Undisturbed S i
      (fun r log s => ∃ b, r = .ok b ∧ (k b).run.Undisturbed S i post log s) log s) :
    (p >>= k).run.Undisturbed S i post log s := by
  refine Prog.Undisturbed.bind (h.mono ?_)
  rintro _ log s ⟨b, rfl, h⟩
  exact h

/-- One program that may fail after another. -/
theorem undisturbed_seq {p : Action ι σ Q ε β} {k : β → Action ι σ Q ε γ}
    (h : p.run.Undisturbed S i (fun r log s =>
      (∀ b, r = .ok b → (k b).run.Undisturbed S i post log s) ∧
        ∀ e, r = .error e → post (.error e) log s) log s) :
    (p >>= k).run.Undisturbed S i post log s := by
  refine Prog.Undisturbed.bind (h.mono ?_)
  rintro (e | b) log s ⟨hok, herror⟩
  · exact herror e rfl
  · exact hok b rfl

/-- A program that cannot fail, before another one. -/
theorem undisturbed_ofProg {p : Prog ι σ Q β} {k : β → Action ι σ Q ε γ}
    (h : p.Undisturbed S i (fun b log s => (k b).run.Undisturbed S i post log s) log s) :
    (Action.ofProg p >>= k).run.Undisturbed S i post log s := by
  rw [ofProg_bind]
  exact Prog.Undisturbed.bind h

/-- A look at the store, before another program. -/
theorem undisturbed_look {f : ι → σ → β} {k : β → Action ι σ Q ε γ}
    (h : ∀ n, (k (f i (S.tick n s))).run.Undisturbed S i post log (S.tick n s)) :
    (Action.look f >>= k).run.Undisturbed S i post log s :=
  h

/-- One query, before another program. -/
theorem undisturbed_query {q : Q β} {k : β → Action ι σ Q ε γ}
    (h : ∀ n, ∃ b s', S.run q i (S.tick n s) = some (b, s') ∧
      (k b).run.Undisturbed S i post (log ++ [⟨_, q⟩]) s') :
    (Action.query q >>= k).run.Undisturbed S i post log s :=
  h

/-- **The rule for transactions** that do not fail. -/
theorem undisturbed_transaction {commit rollback : Q Unit} {body : Action ι σ Q ε γ}
    (h : body.run.Undisturbed S i (fun r log s => ∃ a, r = .ok a ∧ ∀ n, ∃ u s',
      S.run commit i (S.tick n s) = some (u, s') ∧ post (.ok a) (log ++ [⟨_, commit⟩]) s') log s) :
    (Action.transaction commit rollback body).run.Undisturbed S i post log s := by
  refine Prog.Undisturbed.bind (h.mono ?_)
  rintro _ log s ⟨a, rfl, h⟩
  exact h

/-- **The rule for transactions**, which commit or are rolled back. -/
theorem undisturbed_ended {commit rollback : Q Unit} {body : Action ι σ Q ε γ}
    (h : body.run.Undisturbed S i (fun r log s =>
      (∀ a, r = .ok a → ∀ n, ∃ u s', S.run commit i (S.tick n s) = some (u, s') ∧
        post (.ok a) (log ++ [⟨_, commit⟩]) s') ∧
      ∀ e, r = .error e → ∀ n, ∃ u s', S.run rollback i (S.tick n s) = some (u, s') ∧
        post (.error e) (log ++ [⟨_, rollback⟩]) s') log s) :
    (Action.transaction commit rollback body).run.Undisturbed S i post log s := by
  refine Prog.Undisturbed.bind (h.mono ?_)
  rintro (e | a) log s ⟨hok, herror⟩
  · exact herror e rfl
  · exact hok a rfl

end Action

end ReadCommitted
