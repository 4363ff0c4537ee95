import Marketplace.ReadCommitted.RelyGuarantee

/-!
# What a program has done by the time it answers

Whose step a step is, and what can be read off the program that took it. What is left of a
program is a part of the program (`ReadCommitted.kept_of_reachable`), so a shape of programs
that passes to their parts is a shape of whatever is running. The shape of most requests is
that they publish with their last word: once a query of the kind `pub` has been run, the answer
is one of those in `ok` (`ReadCommitted.Prog.Settles`). Then a request with any other answer
has published nothing at all (`ReadCommitted.eq_of_served`), whatever ran beside it.

The file also has the rule for what the process of one request holds while it serves it
(`ReadCommitted.own_of_reachable`), the rule for a request that arrives after something has come
to hold for good (`ReadCommitted.Contract.served_after`), and programs over a larger signature
(`ReadCommitted.Prog.embed`).
-/

namespace ReadCommitted

variable {ι σ σ' ρ α γ κ : Type} {Q Q' : Type → Type 1}

/-! ### Answers -/

namespace Prog

/-- Every answer of the program is one of these. -/
def Answers (ok : α → Prop) : Prog ι σ Q α → Prop
  | ret a => ok a
  | read _ k => ∀ b, (k b).Answers ok
  | query _ k => ∀ b, (k b).Answers ok

/-- **The program publishes with its last word**: once a query of the kind `pub` has been run, its
answer is one of those in `ok`. -/
def Settles (pub : {β : Type} → Q β → Prop) (ok : α → Prop) : Prog ι σ Q α → Prop
  | ret _ => True
  | read _ k => ∀ b, (k b).Settles pub ok
  | query q k => (pub q → ∀ b, (k b).Answers ok) ∧ ∀ b, (k b).Settles pub ok

variable {pub : {β : Type} → Q β → Prop} {ok : α → Prop} {p : Prog ι σ Q α}

theorem Answers.mono {ok' : α → Prop} (h : p.Answers ok) (hok : ∀ a, ok a → ok' a) :
    p.Answers ok' := by
  induction p with
  | ret a => exact hok a h
  | read g k ih => exact fun b => ih b (h b)
  | query q k ih => exact fun b => ih b (h b)

theorem Answers.and {ok' : α → Prop} (h : p.Answers ok) (h' : p.Answers ok') :
    p.Answers fun a => ok a ∧ ok' a := by
  induction p with
  | ret a => exact ⟨h, h'⟩
  | read g k ih => exact fun b => ih b (h b) (h' b)
  | query q k ih => exact fun b => ih b (h b) (h' b)

/-- Where every answer will do, nothing has to be known of the program. -/
theorem answers_of_forall (h : ∀ a, ok a) : p.Answers ok := by
  induction p with
  | ret a => exact h a
  | read g k ih => exact ih
  | query q k ih => exact ih

theorem settles_of_forall (h : ∀ a, ok a) : p.Settles pub ok := by
  induction p with
  | ret a => trivial
  | read g k ih => exact ih
  | query q k ih => exact ⟨fun _ b => answers_of_forall h, ih⟩

theorem answers_bind {f : α → Prog ι σ Q γ} {ok' : γ → Prop} (h : ∀ a, (f a).Answers ok') :
    (p >>= f).Answers ok' := by
  induction p with
  | ret a => exact h a
  | read g k ih => exact ih
  | query q k ih => exact ih

/-- What is known of every answer is known of those that come after a last word. -/
theorem Settles.and {ok' : α → Prop} (h : p.Settles pub ok) (h' : p.Answers ok') :
    p.Settles pub fun a => ok a ∧ ok' a := by
  induction p with
  | ret a => trivial
  | read g k ih => exact fun b => ih b (h b) (h' b)
  | query q k ih => exact ⟨fun hq b => (h.1 hq b).and (h' b), fun b => ih b (h.2 b) (h' b)⟩

/-- A program that publishes nothing settles for any answer. -/
theorem Each.settles (h : p.Each fun q => ¬ pub q) : p.Settles pub ok := by
  induction p with
  | ret a => trivial
  | read g k ih => exact fun b => ih b (h b)
  | query q k ih => exact ⟨fun hq => absurd hq h.1, fun b => ih b (h.2 b)⟩

/-- A program that publishes nothing, before one that publishes with its last word. -/
theorem settles_bind {f : α → Prog ι σ Q γ} {ok' : γ → Prop} (hp : p.Each fun q => ¬ pub q)
    (hf : ∀ a, (f a).Settles pub ok') : (p >>= f).Settles pub ok' := by
  induction p with
  | ret a => exact hf a
  | read g k ih => exact fun b => ih b (hp b)
  | query q k ih => exact ⟨fun hq => absurd hq hp.1, fun b => ih b (hp.2 b)⟩

/-- Two programs, one after the other, when the answers of the first are known. -/
theorem Answers.bind {f : α → Prog ι σ Q γ} {ok' : γ → Prop} (hp : p.Answers ok)
    (hf : ∀ a, ok a → (f a).Answers ok') : (p >>= f).Answers ok' := by
  induction p with
  | ret a => exact hf a hp
  | read g k ih => exact fun b => ih b (hp b)
  | query q k ih => exact fun b => ih b (hp b)

/-- A program that publishes with its last word, before one that publishes nothing and answers
as expected whatever the last word was. -/
theorem Settles.bind {f : α → Prog ι σ Q γ} {ok' : γ → Prop} (hp : p.Settles pub ok)
    (hf : ∀ a, (f a).Each fun q => ¬ pub q) (hok : ∀ a, ok a → (f a).Answers ok') :
    (p >>= f).Settles pub ok' := by
  induction p with
  | ret a => exact (hf a).settles
  | read g k ih => exact fun b => ih b (hp b)
  | query q k ih => exact ⟨fun hq b => (hp.1 hq b).bind hok, fun b => ih b (hp.2 b)⟩

/-- **The program is over once it has published**: nothing comes after a query of the kind
`pub`. -/
def Ends (pub : {β : Type} → Q β → Prop) : Prog ι σ Q α → Prop
  | ret _ => True
  | read _ k => ∀ b, (k b).Ends pub
  | query q k => (pub q → ∀ b, ∃ a, k b = ret a) ∧ ∀ b, (k b).Ends pub

/-- A program that publishes nothing, before one that is over once it has. -/
theorem ends_bind {f : α → Prog ι σ Q γ} (hp : p.Each fun q => ¬ pub q)
    (hf : ∀ a, (f a).Ends pub) : (p >>= f).Ends pub := by
  induction p with
  | ret a => exact hf a
  | read g k ih => exact fun b => ih b (hp b)
  | query q k ih => exact ⟨fun hq => absurd hq hp.1, fun b => ih b (hp.2 b)⟩

/-- A program that is over once it has published, before nothing. -/
theorem Ends.bind {f : α → Prog ι σ Q γ} (hp : p.Ends pub) (hok : p.Answers ok)
    (hf : ∀ a, ok a → ∃ c, f a = ret c) : (p >>= f).Ends pub := by
  induction p with
  | ret a =>
    obtain ⟨c, hc⟩ := hf a hok
    rw [ret_bind, hc]
    trivial
  | read g k ih => exact fun b => ih b (hp b) (hok b)
  | query q k ih =>
    refine ⟨fun hq b => ?_, fun b => ih b (hp.2 b) (hok b)⟩
    show ∃ c, (k b >>= f) = ret c
    obtain ⟨a, ha⟩ := hp.1 hq b
    have hokb : (k b).Answers ok := hok b
    rw [ha] at hokb ⊢
    exact hf a hokb

/-- The program, over a larger signature and a larger store. -/
def embed (get : σ' → σ) (e : {β : Type} → Q β → Q' β) : Prog ι σ Q α → Prog ι σ' Q' α
  | ret a => ret a
  | read f k => read (fun i s => f i (get s)) fun b => (k b).embed get e
  | query q k => query (e q) fun b => (k b).embed get e

/-- The queries of an embedded program are those of the program. -/
theorem each_embed {get : σ' → σ} {e : {β : Type} → Q β → Q' β} {φ : {β : Type} → Q' β → Prop}
    (h : p.Each fun q => φ (e q)) : (p.embed get e).Each φ := by
  induction p with
  | ret a => trivial
  | read f k ih => exact fun b => ih b (h b)
  | query q k ih => exact ⟨h.1, fun b => ih b (h.2 b)⟩

end Prog

namespace Action

variable {ε : Type} {pub : {β : Type} → Q β → Prop} {commit rollback : Q Unit}
  {body : Action ι σ Q ε α}

/-- **A transaction that does not fail has committed, and one that has committed does not
fail**, if nothing but its commit publishes. -/
theorem settles_transaction (hr : ¬ pub rollback) (hb : body.run.Each fun q => ¬ pub q) :
    (transaction commit rollback body).run.Settles pub fun a => a.isOk = true := by
  refine Prog.settles_bind hb fun a => ?_
  cases a with
  | ok a => exact ⟨fun _ _ => rfl, fun _ => trivial⟩
  | error e => exact ⟨fun h => absurd h hr, fun _ => trivial⟩

theorem ends_transaction (hr : ¬ pub rollback) (hb : body.run.Each fun q => ¬ pub q) :
    (transaction commit rollback body).run.Ends pub := by
  refine Prog.ends_bind hb fun a => ?_
  cases a with
  | ok a => exact ⟨fun _ _ => ⟨_, rfl⟩, fun _ => trivial⟩
  | error e => exact ⟨fun h => absurd h hr, fun _ => trivial⟩

/-- A transaction answers what its body does. -/
theorem answers_transaction {ok : Except ε α → Prop} (hb : body.run.Answers ok) :
    (transaction commit rollback body).run.Answers ok := by
  refine Prog.Answers.bind hb fun a ha => ?_
  cases a with
  | ok a => exact fun _ => ha
  | error e => exact fun _ => ha

/-- Any program, before one whose answers are known, when its failures will do. -/
theorem answers_andThen {β : Type} {p : Action ι σ Q ε β} {k : β → Action ι σ Q ε α}
    {ok : Except ε α → Prop} (he : ∀ e, ok (.error e)) (hk : ∀ b, (k b).run.Answers ok) :
    (p >>= k).run.Answers ok := by
  refine Prog.answers_bind fun b => ?_
  cases b with
  | ok b => exact hk b
  | error e => exact he e

/-- A program that publishes nothing, before one that publishes with its last word. -/
theorem settles_andThen {β : Type} {p : Action ι σ Q ε β} {k : β → Action ι σ Q ε α}
    {ok : Except ε α → Prop} (hp : p.run.Each fun q => ¬ pub q)
    (hk : ∀ b, (k b).run.Settles pub ok) : (p >>= k).run.Settles pub ok := by
  refine Prog.settles_bind hp fun b => ?_
  cases b with
  | ok b => exact hk b
  | error e => exact trivial

/-- A program that publishes with its last word, before one that publishes nothing. -/
theorem settles_then {β : Type} {p : Action ι σ Q ε β} {k : β → Action ι σ Q ε α}
    {ok : Except ε α → Prop} (hp : p.run.Settles pub fun a => a.isOk = true)
    (hk : ∀ b, (k b).run.Each fun q => ¬ pub q) (hok : ∀ b, (k b).run.Answers ok) :
    (p >>= k).run.Settles pub ok := by
  refine hp.bind (fun b => ?_) fun b hb => ?_
  · cases b with
    | ok b => exact hk b
    | error e => exact trivial
  · cases b with
    | ok b => exact hok b
    | error e => cases hb

end Action

/-! ### Whose step it is -/

variable [DecidableEq ι] (S : System ι σ ρ α Q) (C : Proviso ι σ Q)

/-- **One step of process `i`**: a read, a query, or its death. -/
inductive StepOf (i : ι) : Config ι σ ρ α Q → Config ι σ ρ α Q → Prop
  /-- The process looks at the store. -/
  | read {c : Config ι σ ρ α Q} {r : ρ} {δ : Type} {f : ι → σ → δ} {k : δ → Prog ι σ Q α}
      (hi : c.procs i = .running r (.read f k)) :
      StepOf i c ⟨c.db, setProc i (.running r (k (f i c.db))) c.procs⟩
  /-- The process runs its next query. -/
  | query {c : Config ι σ ρ α Q} {r : ρ} {δ : Type} {q : Q δ} {k : δ → Prog ι σ Q α} {b : δ} {s : σ}
      (hi : c.procs i = .running r (.query q k)) (hC : C i q c.db)
      (hq : S.run q i c.db = some (b, s)) :
      StepOf i c ⟨s, setProc i (.running r (k b)) c.procs⟩
  /-- The process dies. -/
  | crash {c : Config ι σ ρ α Q} {r : ρ} {p : Prog ι σ Q α} {s : σ}
      (hi : c.procs i = .running r p) (hC : C i S.rollback c.db)
      (hq : S.run S.rollback i c.db = some ((), s)) : StepOf i c ⟨s, setProc i .dead c.procs⟩

variable {S C} {c d : Config ι σ ρ α Q} {i : ι} {r : ρ}

theorem StepOf.step (h : StepOf S C i c d) : Step S C c d := by
  cases h with
  | read hi => exact .read hi
  | query hi hC hq => exact .query hi hC hq
  | crash hi hC hq => exact .crash hi hC hq

/-- What one event of a schedule does, when the event is a step of process `i`. -/
theorem stepOf_of_exec1 (h : exec1 S (.run i) c = some d) : StepOf S anyQuery i c d := by
  simp only [exec1] at h
  split at h
  · rename_i hi
    cases h
    exact .read hi
  · rename_i hi
    split at h
    · rename_i hq
      cases h
      exact .query hi trivial hq
    · cases h
  · cases h

/-! ### What is left of a program -/

/-- A shape of programs that passes to what is left of them. -/
structure Closed (P : Prog ι σ Q α → Prop) : Prop where
  /-- After a read. -/
  read : ∀ {β : Type} {f : ι → σ → β} {k : β → Prog ι σ Q α}, P (.read f k) → ∀ b, P (k b)
  /-- After a query. -/
  query : ∀ {β : Type} {q : Q β} {k : β → Prog ι σ Q α}, P (.query q k) → ∀ b, P (k b)

/-- A shape of programs that passes to what is left of them, when queries answer as they can. -/
structure ClosedIn (S : System ι σ ρ α Q) (P : Prog ι σ Q γ → Prop) : Prop where
  /-- After a read. -/
  read : ∀ {δ : Type} {f : ι → σ → δ} {k : δ → Prog ι σ Q γ}, P (.read f k) → ∀ b, P (k b)
  /-- After a query. -/
  query : ∀ {δ : Type} {q : Q δ} {k : δ → Prog ι σ Q γ} {b : δ}, P (.query q k) →
    (∃ i s s', S.run q i s = some (b, s')) → P (k b)

omit [DecidableEq ι] in
theorem Closed.closedIn {P : Prog ι σ Q α → Prop} (hP : Closed P) : ClosedIn S P :=
  ⟨hP.read, fun h _ => hP.query h _⟩

omit [DecidableEq ι] in
theorem closed_answers {ok : α → Prop} : Closed (Prog.Answers ok : Prog ι σ Q α → Prop) :=
  ⟨fun h b => h b, fun h b => h b⟩

omit [DecidableEq ι] in
theorem closed_settles {pub : {β : Type} → Q β → Prop} {ok : α → Prop} :
    Closed (Prog.Settles pub ok : Prog ι σ Q α → Prop) :=
  ⟨fun h b => h b, fun h b => h.2 b⟩

omit [DecidableEq ι] in
theorem closed_ends {pub : {β : Type} → Q β → Prop} :
    Closed (Prog.Ends pub : Prog ι σ Q α → Prop) :=
  ⟨fun h b => h b, fun h b => h.2 b⟩

omit [DecidableEq ι] in
theorem Closed.imp {P : Prog ι σ Q α → Prop} (hP : Closed P) (φ : Prop) :
    Closed fun p : Prog ι σ Q α => φ → P p :=
  ⟨fun h b hφ => hP.read (h hφ) b, fun h b hφ => hP.query (h hφ) b⟩

/-- One step leaves a running process with what is left of its program, or dead. -/
theorem Step.procIn {P : Prog ι σ Q α → Prop} (hP : ClosedIn S P) (h : Step S C c d)
    {p : Prog ι σ Q α} (hi : c.procs i = .running r p) (hp : P p) :
    d.procs i = .dead ∨ ∃ p', d.procs i = .running r p' ∧ P p' := by
  cases h with
  | arrive j r' hj =>
    have hne : i ≠ j := by
      rintro rfl
      rw [hi] at hj
      cases hj
    exact Or.inr ⟨p, (setProc_of_ne hne).trans hi, hp⟩
  | @read j r' δ f k hj =>
    rcases eq_or_ne i j with rfl | hne
    · rw [hi] at hj
      cases hj
      exact Or.inr ⟨_, setProc_self, hP.read hp _⟩
    · exact Or.inr ⟨p, (setProc_of_ne hne).trans hi, hp⟩
  | @query j r' δ q k b s hj hC hq =>
    rcases eq_or_ne i j with rfl | hne
    · rw [hi] at hj
      cases hj
      exact Or.inr ⟨_, setProc_self, hP.query hp ⟨i, _, _, hq⟩⟩
    · exact Or.inr ⟨p, (setProc_of_ne hne).trans hi, hp⟩
  | @crash j r' p' s hj hC hq =>
    rcases eq_or_ne i j with rfl | hne
    · exact Or.inl setProc_self
    · exact Or.inr ⟨p, (setProc_of_ne hne).trans hi, hp⟩
  | tick n => exact Or.inr ⟨p, hi, hp⟩

theorem Step.proc {P : Prog ι σ Q α → Prop} (hP : Closed P) (h : Step S C c d)
    {p : Prog ι σ Q α} (hi : c.procs i = .running r p) (hp : P p) :
    d.procs i = .dead ∨ ∃ p', d.procs i = .running r p' ∧ P p' :=
  h.procIn hP.closedIn hi hp

/-- **What is left of a program is a part of it**, or its process is dead. -/
theorem Reachable.proc {P : Prog ι σ Q α → Prop} (hP : Closed P) (h : Reachable S C c d)
    {p : Prog ι σ Q α} (hi : c.procs i = .running r p) (hp : P p) :
    d.procs i = .dead ∨ ∃ p', d.procs i = .running r p' ∧ P p' := by
  induction h with
  | refl => exact Or.inr ⟨p, hi, hp⟩
  | tail hrest hstep ih =>
    rcases ih with hdead | ⟨p', hi', hp'⟩
    · exact Or.inl (Reachable.dead (.single hstep) hdead)
    · exact hstep.proc hP hi' hp'

/-- **What is running has the shape of the program of its request.** -/
theorem keptIn_of_reachable {P : ι → ρ → Prog ι σ Q α → Prop}
    (hP : ∀ i r, ClosedIn S (P i r)) (hprog : ∀ i r, P i r (S.program i r)) {s₀ : σ}
    (h : Reachable S C (.initial s₀) c) {p : Prog ι σ Q α} (hi : c.procs i = .running r p) : P i r p := by
  induction h generalizing i r p with
  | refl => exact nomatch hi
  | @tail c d hrest hstep ih =>
    by_cases hold : ∃ r' p', c.procs i = .running r' p'
    · obtain ⟨r', p', hc⟩ := hold
      rcases hstep.procIn (hP i r') hc (ih hc) with hdead | ⟨p'', hd, hp⟩
      · rw [hdead] at hi
        cases hi
      · rw [hd] at hi
        cases hi
        exact hp
    · -- a process that was not running has just been given its request
      cases hstep with
      | arrive j r' hj =>
        rcases setProc_running hi with ⟨rfl, hr⟩ | ⟨-, hi⟩
        · cases hr
          exact hprog _ _
        · exact absurd ⟨r, p, hi⟩ hold
      | read hj =>
        rcases setProc_running hi with ⟨rfl, -⟩ | ⟨-, hi⟩
        · exact absurd ⟨_, _, hj⟩ hold
        · exact absurd ⟨r, p, hi⟩ hold
      | query hj hC hq =>
        rcases setProc_running hi with ⟨rfl, -⟩ | ⟨-, hi⟩
        · exact absurd ⟨_, _, hj⟩ hold
        · exact absurd ⟨r, p, hi⟩ hold
      | crash hj hC hq =>
        rcases setProc_running hi with ⟨-, hr⟩ | ⟨-, hi⟩
        · cases hr
        · exact absurd ⟨r, p, hi⟩ hold
      | tick n => exact absurd ⟨r, p, hi⟩ hold

theorem kept_of_reachable {P : ι → ρ → Prog ι σ Q α → Prop} (hP : ∀ i r, Closed (P i r))
    (hprog : ∀ i r, P i r (S.program i r)) {s₀ : σ} (h : Reachable S C (.initial s₀) c)
    {p : Prog ι σ Q α} (hi : c.procs i = .running r p) : P i r p :=
  keptIn_of_reachable (fun i r => (hP i r).closedIn) hprog h hi

/-! ### Requests that fail -/

/-- **A request that was not answered as expected has published nothing**: no step of its
process changed what `view` shows of the store. -/
theorem eq_of_served {V : Type} (view : σ → V) {pub : {β : Type} → Q β → Prop}
    {ok : ι → ρ → α → Prop} (hprog : ∀ i r, (S.program i r).Settles pub (ok i r))
    (hrb : ¬ pub S.rollback)
    (hview : ∀ {β : Type} (q : Q β) i s b s', S.run q i s = some (b, s') → ¬ pub q →
      view s' = view s)
    {s₀ : σ} {e : Config ι σ ρ α Q} (h : Reachable S C (.initial s₀) c) (hstep : StepOf S C i c d)
    (hrest : Reachable S C d e) {a : α} (hserved : e.Served i r a) (hok : ¬ ok i r a) :
    view d.db = view c.db := by
  cases hstep with
  | read hi => rfl
  | @query r' δ q k b s hi hC hq =>
    refine hview q i _ b s hq fun hpub => hok ?_
    have hset := kept_of_reachable (P := fun i r => Prog.Settles pub (ok i r))
      (fun _ _ => closed_settles) hprog h hi
    rcases Reachable.proc closed_answers hrest (setProc_self : setProc i _ c.procs i = _)
      (hset.1 hpub b) with hdead | ⟨p', hp', ha⟩
    · rw [Config.Served, hdead] at hserved
      cases hserved
    · rw [Config.Served, hp'] at hserved
      cases hserved
      exact ha
  | crash hi hC hq => exact hview _ i _ _ _ hq hrb

/-! ### What the process of a request holds -/

/-- **What a process holds while it serves a request**: `J i r` holds from its arrival on, if its
own queries keep it, and so do the steps of the others. -/
theorem own_of_reachable {φ : ι → ρ → {β : Type} → Q β → Prop}
    (hprog : ∀ i r, (S.program i r).Each (φ i r)) (J₀ : ι → σ → Prop) (J : ι → ρ → σ → Prop)
    (hstart : ∀ i r s, J₀ i s → J i r s)
    (hown : ∀ {β : Type} (q : Q β) i r s b s', φ i r q → C i q s → S.run q i s = some (b, s') →
      J i r s → J i r s')
    (hother : ∀ {β : Type} (q : Q β) i j s b s', j ≠ i → S.run q j s = some (b, s') →
      (J₀ i s → J₀ i s') ∧ ∀ r, J i r s → J i r s')
    (htick : ∀ i s n, (J₀ i s → J₀ i (S.tick n s)) ∧ ∀ r, J i r s → J i r (S.tick n s))
    {s₀ : σ} (h₀ : ∀ i, J₀ i s₀) (h : Reachable S C (.initial s₀) c) :
    (∀ i, c.procs i = .idle → J₀ i c.db) ∧
      ∀ i r p, c.procs i = .running r p → J i r c.db ∧ p.Each (φ i r) := by
  induction h with
  | refl => exact ⟨fun i _ => h₀ i, fun i r p hi => by cases hi⟩
  | @tail c d _ hstep ih =>
    obtain ⟨hidle, hrun⟩ := ih
    cases hstep with
    | arrive j r hj =>
      refine ⟨fun i hi => hidle i (setProc_idle hi Proc.running_ne_idle).2, fun i r' p hi => ?_⟩
      rcases setProc_running hi with ⟨rfl, hr⟩ | ⟨-, hi⟩
      · cases hr
        exact ⟨hstart _ _ _ (hidle _ hj), hprog _ _⟩
      · exact hrun i r' p hi
    | read hj =>
      refine ⟨fun i hi => hidle i (setProc_idle hi Proc.running_ne_idle).2, fun i r' p hi => ?_⟩
      rcases setProc_running hi with ⟨rfl, hr⟩ | ⟨-, hi⟩
      · cases hr
        exact ⟨(hrun _ _ _ hj).1, (hrun _ _ _ hj).2 _⟩
      · exact hrun i r' p hi
    | query hj hC hq =>
      refine ⟨fun i hi => ?_, fun i r' p hi => ?_⟩
      · obtain ⟨hne, hi⟩ := setProc_idle hi Proc.running_ne_idle
        exact (hother _ i _ _ _ _ hne.symm hq).1 (hidle i hi)
      · rcases setProc_running hi with ⟨rfl, hr⟩ | ⟨hne, hi⟩
        · cases hr
          obtain ⟨hJ, heach⟩ := hrun _ _ _ hj
          exact ⟨hown _ _ _ _ _ _ heach.1 hC hq hJ, heach.2 _⟩
        · obtain ⟨hJ, heach⟩ := hrun i r' p hi
          exact ⟨(hother _ i _ _ _ _ hne.symm hq).2 r' hJ, heach⟩
    | crash hj hC hq =>
      refine ⟨fun i hi => ?_, fun i r' p hi => ?_⟩
      · obtain ⟨hne, hi⟩ := setProc_idle hi Proc.dead_ne_idle
        exact (hother _ i _ _ _ _ hne.symm hq).1 (hidle i hi)
      · rcases setProc_running hi with ⟨-, hr⟩ | ⟨hne, hi⟩
        · cases hr
        · obtain ⟨hJ, heach⟩ := hrun i r' p hi
          exact ⟨(hother _ i _ _ _ _ hne.symm hq).2 r' hJ, heach⟩
    | tick n =>
      exact ⟨fun i hi => (htick i _ n).1 (hidle i hi),
        fun i r p hi => ⟨(htick i _ n).2 r (hrun i r p hi).1, (hrun i r p hi).2⟩⟩

/-- **What a process holds while it is not running**, before its request and after its death:
`J₀ i` holds, if a rollback brings it about, and the steps of the others keep it. -/
theorem free_of_reachable (J₀ : ι → σ → Prop)
    (hrb : ∀ i s s', S.run S.rollback i s = some ((), s') → J₀ i s')
    (hother : ∀ {β : Type} (q : Q β) i j s b s', j ≠ i → S.run q j s = some (b, s') →
      J₀ i s → J₀ i s')
    (htick : ∀ i s n, J₀ i s → J₀ i (S.tick n s))
    {s₀ : σ} (h₀ : ∀ i, J₀ i s₀) (h : Reachable S C (.initial s₀) c) (i : ι)
    (hi : ∀ r p, c.procs i ≠ .running r p) : J₀ i c.db := by
  induction h with
  | refl => exact h₀ i
  | @tail c d _ hstep ih =>
    -- a process that was running is running still, or has just died
    have hstill : ∀ {j : ι} {q : Proc ι σ ρ α Q}, d.procs = setProc j q c.procs → i ≠ j →
        ∀ r p, c.procs i ≠ .running r p := by
      intro j q hd hne r p hc
      exact hi r p (by rw [hd, setProc_of_ne hne, hc])
    cases hstep with
    | arrive j r hj =>
      rcases eq_or_ne i j with rfl | hne
      · exact absurd setProc_self (hi _ _)
      · exact ih (hstill rfl hne)
    | @read j r δ f k hj =>
      rcases eq_or_ne i j with rfl | hne
      · exact absurd setProc_self (hi _ _)
      · exact ih (hstill rfl hne)
    | @query j r δ q k b s hj hC hq =>
      rcases eq_or_ne i j with rfl | hne
      · exact absurd setProc_self (hi _ _)
      · exact hother _ i _ _ _ _ hne.symm hq (ih (hstill rfl hne))
    | @crash j r p s hj hC hq =>
      rcases eq_or_ne i j with rfl | hne
      · exact hrb _ _ _ hq
      · exact hother _ i _ _ _ _ hne.symm hq (ih (hstill rfl hne))
    | tick n => exact htick i _ n (ih hi)

/-! ### Requests that arrive later -/

omit [DecidableEq ι] in
/-- What is known of process `i`, as an assertion of process `j`: nothing, unless they are the
same process and `φ`. -/
def Assertion.onlyAt {G : Contract S C} (A : Assertion G i) (φ : Prop) (j : ι) : Assertion G j where
  holds s := j = i → φ → A.holds s
  stable := by
    rintro k s s' hne hs hs' hg h rfl hφ
    exact A.stable hne hs hs' hg (h rfl hφ)
  tick := by
    rintro s n hs h rfl hφ
    exact A.tick n hs (h rfl hφ)

/-- **A request that arrives where `P` is known** is answered as its proof says, whoever else is
at work, if every query is sound. -/
theorem Contract.served_after {G : Contract S C} {P : Assertion G i} {post : α → Assertion G i}
    (hsound : ∀ {β : Type} (q : Q β), G.Sound q) (hprog : Safe post (S.program i r) P)
    (hs : G.inv c.db) (hP : P.holds c.db) (hidle : c.procs i = .idle) (h : Reachable S C c d)
    {a : α} (hserved : d.Served i r a) : (post a).holds d.db := by
  have hfree : ∀ {j : ι} {r' : ρ} {p : Prog ι σ Q α} {R : Assertion G j}, ¬ (j = i ∧ r' = r) →
      Safe (fun a => (post a).onlyAt (r' = r) j) p R := by
    intro j r' p R hne
    refine (Safe.of_sound (Prog.each_of_forall hsound)).conseq (fun _ _ _ => trivial) ?_
    exact fun a s _ _ hji hr => absurd ⟨hji, hr⟩ hne
  have hall : ∀ j r', Safe (fun a => (post a).onlyAt (r' = r) j) (S.program j r')
      (P.onlyAt True j) := by
    intro j r'
    by_cases hsame : j = i ∧ r' = r
    · obtain ⟨rfl, rfl⟩ := hsame
      exact hprog.conseq (fun s _ h => h rfl trivial) fun a s _ h _ _ => h
    · exact hfree hsame
  have htrack : G.Tracked (fun j => P.onlyAt True j)
      (fun j r' a => (post a).onlyAt (r' = r) j) c := by
    refine ⟨fun j _ hji _ => hP, fun j r' p hj => ⟨.any, trivial, hfree ?_⟩⟩
    rintro ⟨rfl, -⟩
    rw [hidle] at hj
    cases hj
  obtain ⟨-, hs', htrack'⟩ := G.rel_of_reachable hall (fun _ _ => True) (fun _ => trivial)
    (fun _ _ _ _ _ => trivial) (fun _ _ _ _ _ _ => trivial) (fun _ _ => trivial) hs htrack h
  exact htrack'.served hs' hserved rfl rfl

end ReadCommitted
