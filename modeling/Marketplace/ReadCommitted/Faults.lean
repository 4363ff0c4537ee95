import Marketplace.ReadCommitted.Answers

/-!
# Statements that fail

Any statement may fail for reasons that are not in the program: a lost connection, a deadlock, a
timeout. The program then goes no further, and answers that. Where this happens is an input
like any other (`ReadCommitted.Prog.failAt`), so that what is said of every request is said of
every place it may fail at.
-/

namespace ReadCommitted

variable {ι σ ρ α ε : Type} {Q : Type → Type 1}

namespace Prog

/-- **The program, whose step number `fault` fails**: it ends there, with result `a`. The first
step has number `0`, and what comes after the last step has a number too. -/
def failAt (a : α) (fault : Option ℕ) (p : Prog ι σ Q α) : Prog ι σ Q α :=
  match fault, p with
  | none, p => p
  | some 0, _ => ret a
  | some (_ + 1), ret b => ret b
  | some (n + 1), read f k => read f fun b => (k b).failAt a (some n)
  | some (n + 1), query q k => query q fun b => (k b).failAt a (some n)

variable {a : α} {p : Prog ι σ Q α}

@[simp] theorem failAt_none : p.failAt a none = p := by cases p <;> rfl

@[simp] theorem failAt_zero : p.failAt a (some 0) = ret a := by cases p <;> rfl

/-- A program that may fail early issues no other queries. -/
theorem Each.failAt {φ : {β : Type} → Q β → Prop} (h : p.Each φ) (fault : Option ℕ) :
    (p.failAt a fault).Each φ := by
  rcases fault with _ | n
  · rwa [failAt_none]
  induction p generalizing n with
  | ret b => cases n <;> trivial
  | read f k ih =>
    cases n with
    | zero => trivial
    | succ n => exact fun b => ih b (h b) n
  | query q k ih =>
    cases n with
    | zero => trivial
    | succ n => exact ⟨h.1, fun b => ih b (h.2 b) n⟩

/-- A program that may fail early has one more answer. -/
theorem Answers.failAt {ok : α → Prop} (h : p.Answers ok) (fault : Option ℕ)
    (ha : fault ≠ none → ok a) : (p.failAt a fault).Answers ok := by
  rcases fault with _ | n
  · rwa [failAt_none]
  have hok : ok a := ha (Option.some_ne_none n)
  clear ha
  induction p generalizing n with
  | ret b =>
    cases n with
    | zero => exact hok
    | succ n => exact h
  | read f k ih =>
    cases n with
    | zero => exact hok
    | succ n => exact fun b => ih b (h b) n
  | query q k ih =>
    cases n with
    | zero => exact hok
    | succ n => exact fun b => ih b (h b) n

end Prog

/-- A program that may fail, and whose step number `fault` does, with error `e`. -/
def Action.failAt (e : ε) (fault : Option ℕ) (p : Action ι σ Q ε α) : Action ι σ Q ε α :=
  Prog.failAt (.error e) fault p.run

/-- A program that may fail early issues no other queries. -/
theorem Action.each_failAt {φ : {β : Type} → Q β → Prop} {e : ε} {p : Action ι σ Q ε α}
    (h : p.run.Each φ) (fault : Option ℕ) : (p.failAt e fault).run.Each φ :=
  Prog.Each.failAt h fault

variable {S : System ι σ ρ α Q} {C : Proviso ι σ Q} {G : Contract S C} {i : ι} {γ : Type}

/-- **A safe program may fail anywhere**, when nothing has to be known of where it does. -/
theorem Safe.failAt {p : Prog ι σ Q γ} {a : γ} {post : γ → Assertion G i} {P : Assertion G i}
    (h : Safe post p P) (fault : Option ℕ)
    (ha : fault ≠ none → ∀ s, G.inv s → (post a).holds s) : Safe post (p.failAt a fault) P := by
  rcases fault with _ | n
  · rwa [Prog.failAt_none]
  have hpost : ∀ s, G.inv s → (post a).holds s := ha (Option.some_ne_none n)
  clear ha
  induction p generalizing n P with
  | ret b =>
    cases n with
    | zero => exact fun s hs _ => hpost s hs
    | succ n => exact h
  | read f k ih =>
    cases n with
    | zero => exact fun s hs _ => hpost s hs
    | succ n =>
      obtain ⟨M, hM, hk⟩ := h
      exact ⟨M, hM, fun b => ih b (hk b) n⟩
  | query q k ih =>
    cases n with
    | zero => exact fun s hs _ => hpost s hs
    | succ n =>
      obtain ⟨M, hM, hk⟩ := h
      exact ⟨M, hM, fun b => ih b (hk b) n⟩

end ReadCommitted
