import Marketplace.ReadCommitted.Faults

/-!
# What a request has published, and what it answers

A safe program is one whose steps keep a contract; nothing in that relates what a process answers
to what it has published, or to the stores it found when it did. A program is *truthful*
(`ReadCommitted.Truthful`) when, besides, a relation `T` holds between the stores before and after
each of its queries that publish something, and what is known of its answer may depend on whether
there was one.

A run of truthful programs tells the same of every process: of each of its steps that published
something (`ReadCommitted.Contract.published`), and of its answer
(`ReadCommitted.Contract.answered`).
-/

namespace ReadCommitted

variable {ι σ ρ α γ β ε : Type} {Q : Type → Type 1} {S : System ι σ ρ α Q} {C : Proviso ι σ Q}
  {G : Contract S C} {i : ι}

/-- **The program is truthful** from where `P` is known, and having published something or not:
it is safe, its queries that publish do what `T` says, and what is known of its result is `post`,
for whether it has published something. -/
def Truthful (pub : {β : Type} → Q β → Prop) (T : σ → σ → Prop) (post : Prop → γ → Assertion G i) :
    Prop → Prog ι σ Q γ → Assertion G i → Prop
  | done, .ret a, P => ∀ s, G.inv s → P.holds s → (post done a).holds s
  | done, .read f k, P => ∃ M : _ → Assertion G i,
      (∀ s, G.inv s → P.holds s → (M (f i s)).holds s) ∧ ∀ b, Truthful pub T post done (k b) (M b)
  | done, .query q k, P => ∃ M : _ → Assertion G i,
      (∀ s b s', G.inv s → P.holds s → C i q s → S.run q i s = some (b, s') →
        G.inv s' ∧ G.guar i s s' ∧ (M b).holds s' ∧ (pub q → T s s')) ∧
      ∀ b, Truthful pub T post (done ∨ pub q) (k b) (M b)

namespace Truthful

variable {pub : {β : Type} → Q β → Prop} {T : σ → σ → Prop} {post : Prop → γ → Assertion G i}
  {done : Prop} {P R : Assertion G i}

theorem ret {a : γ} (h : ∀ s, G.inv s → P.holds s → (post done a).holds s) :
    Truthful pub T post done (.ret a) P :=
  h

theorem read {f : ι → σ → β} {k : β → Prog ι σ Q γ} (M : β → Assertion G i)
    (h : ∀ s, G.inv s → P.holds s → (M (f i s)).holds s)
    (hk : ∀ b, Truthful pub T post done (k b) (M b)) : Truthful pub T post done (.read f k) P :=
  ⟨M, h, hk⟩

theorem query {q : Q β} {k : β → Prog ι σ Q γ} (M : β → Assertion G i)
    (h : ∀ s b s', G.inv s → P.holds s → C i q s → S.run q i s = some (b, s') →
      G.inv s' ∧ G.guar i s s' ∧ (M b).holds s' ∧ (pub q → T s s'))
    (hk : ∀ b, Truthful pub T post (done ∨ pub q) (k b) (M b)) :
    Truthful pub T post done (.query q k) P :=
  ⟨M, h, hk⟩

/-- What is known may be weakened on the way in, and on the way out. -/
theorem conseq {p : Prog ι σ Q γ} {post' : Prop → γ → Assertion G i}
    (h : Truthful pub T post done p P) (hin : ∀ s, G.inv s → R.holds s → P.holds s)
    (hout : ∀ done a s, G.inv s → (post done a).holds s → (post' done a).holds s) :
    Truthful pub T post' done p R := by
  induction p generalizing done P R with
  | ret a => exact fun s hs hR => hout done a s hs (h s hs (hin s hs hR))
  | read f k ih =>
    obtain ⟨M, hM, hk⟩ := h
    exact ⟨M, fun s hs hR => hM s hs (hin s hs hR), fun b => ih b (hk b) fun _ _ hb => hb⟩
  | query q k ih =>
    obtain ⟨M, hM, hk⟩ := h
    exact ⟨M, fun s b s' hs hR => hM s b s' hs (hin s hs hR),
      fun b => ih b (hk b) fun _ _ hb => hb⟩

/-- A truthful program is safe. -/
theorem safe {p : Prog ι σ Q γ} (h : Truthful pub T post done p P) :
    Safe (fun a => .ex fun done => post done a) p P := by
  induction p generalizing done P with
  | ret a => exact fun s hs hP => ⟨done, h s hs hP⟩
  | read f k ih =>
    obtain ⟨M, hM, hk⟩ := h
    exact ⟨M, hM, fun b => ih b (hk b)⟩
  | query q k ih =>
    obtain ⟨M, hM, hk⟩ := h
    refine ⟨M, fun s b s' hs hP hC hq => ?_, fun b => ih b (hk b)⟩
    obtain ⟨hs', hg, hb, -⟩ := hM s b s' hs hP hC hq
    exact ⟨hs', hg, hb⟩

/-- **A safe program that publishes nothing is truthful.** -/
theorem of_safe {p : Prog ι σ Q γ} {mid : γ → Assertion G i} (h : Safe mid p P)
    (hp : p.Each fun q => ¬ pub q) :
    Truthful pub T (fun done' a => (Assertion.fact (done' ↔ done)).and (mid a)) done p P := by
  have hgeneral : ∀ {e : Prop}, (e ↔ done) → Truthful pub T
      (fun done' a => (Assertion.fact (done' ↔ done)).and (mid a)) e p P := by
    intro e he
    induction p generalizing e P with
    | ret a => exact fun s hs hP => ⟨he, h s hs hP⟩
    | read f k ih =>
      obtain ⟨M, hM, hk⟩ := h
      exact ⟨M, hM, fun b => ih b (hk b) (hp b) he⟩
    | query q k ih =>
      obtain ⟨M, hM, hk⟩ := h
      refine ⟨M, fun s b s' hs hP hC hq => ?_, fun b => ih b (hk b) (hp.2 b) ?_⟩
      · obtain ⟨hs', hg, hb⟩ := hM s b s' hs hP hC hq
        exact ⟨hs', hg, hb, fun hpub => absurd hpub hp.1⟩
      · rw [← he]
        exact or_iff_left hp.1
  exact hgeneral Iff.rfl

/-- A safe program that publishes nothing, when that does not have to be known. -/
theorem of_safe_quiet {p : Prog ι σ Q γ} {mid : γ → Assertion G i} (h : Safe mid p P)
    (hp : p.Each fun q => ¬ pub q) : Truthful pub T (fun _ => mid) done p P :=
  (of_safe h hp).conseq (fun _ _ hP => hP) fun _ _ _ _ hpost => hpost.2

/-- A safe program of which nothing has to be told. -/
theorem of_safe_any {p : Prog ι σ Q γ} {mid : γ → Assertion G i} (h : Safe mid p P)
    (hT : ∀ s s', T s s') : Truthful pub T (fun _ => mid) done p P := by
  induction p generalizing done P with
  | ret a => exact h
  | read f k ih =>
    obtain ⟨M, hM, hk⟩ := h
    exact ⟨M, hM, fun b => ih b (hk b)⟩
  | query q k ih =>
    obtain ⟨M, hM, hk⟩ := h
    refine ⟨M, fun s b s' hs hP hC hq => ?_, fun b => ih b (hk b)⟩
    obtain ⟨hs', hg, hb⟩ := hM s b s' hs hP hC hq
    exact ⟨hs', hg, hb, fun _ => hT s s'⟩

/-- One truthful program after another. -/
theorem bind {p : Prog ι σ Q β} {f : β → Prog ι σ Q γ} {mid : Prop → β → Assertion G i}
    (hp : Truthful pub T mid done p P)
    (hf : ∀ done b, Truthful pub T post done (f b) (mid done b)) :
    Truthful pub T post done (p >>= f) P := by
  induction p generalizing done P with
  | ret a => exact (hf done a).conseq hp fun _ _ _ _ h => h
  | read g k ih =>
    obtain ⟨M, hM, hk⟩ := hp
    exact ⟨M, hM, fun b => ih b (hk b)⟩
  | query q k ih =>
    obtain ⟨M, hM, hk⟩ := hp
    exact ⟨M, hM, fun b => ih b (hk b)⟩

/-- One truthful program that may fail after another: an error of the first is the result. -/
theorem andThen {p : Action ι σ Q ε β} {k : β → Action ι σ Q ε γ}
    {post : Prop → Except ε γ → Assertion G i} (mid : Prop → β → Assertion G i)
    (hp : Truthful pub T (fun done => Assertion.onOk (mid done) fun e => post done (.error e)) done
      p.run P)
    (hk : ∀ done b, Truthful pub T post done (k b).run (mid done b)) :
    Truthful pub T post done (p >>= k).run P := by
  refine Truthful.bind hp fun done b => ?_
  cases b with
  | ok b => exact hk done b
  | error e => exact fun s _ h => h

/-- What is known and is not about the store may be assumed. -/
theorem of_fact {p : Prog ι σ Q γ} {φ : Prop} (h : φ → Truthful pub T post done p P) :
    Truthful pub T post done p ((Assertion.fact φ).and P) := by
  by_cases hφ : φ
  · exact (h hφ).conseq (fun _ _ hs => hs.2) fun _ _ _ _ h => h
  · clear h
    have hfalse : ∀ s, ¬ ((Assertion.fact φ).and P : Assertion G i).holds s := fun s hs => hφ hs.1
    generalize (Assertion.fact φ).and P = R at hfalse
    induction p generalizing done R with
    | ret a => exact fun s _ hR => absurd hR (hfalse s)
    | read f k ih =>
      exact ⟨fun _ => .fact False, fun s _ hR => absurd hR (hfalse s),
        fun b => ih b _ fun _ hF => hF⟩
    | query q k ih =>
      exact ⟨fun _ => .fact False, fun s _ _ _ hR => absurd hR (hfalse s),
        fun b => ih b _ fun _ hF => hF⟩

/-- **The rule for transactions** that publish nothing before their commit. -/
theorem transaction {commit rollback : Q Unit} {body : Action ι σ Q ε γ}
    {post : Prop → Except ε γ → Assertion G i} (mid : Except ε γ → Assertion G i)
    (hb : Safe mid body.run P) (hp : body.run.Each fun q => ¬ pub q) (hr : ¬ pub rollback)
    (hcommit : ∀ a s b s', G.inv s → (mid (.ok a)).holds s → C i commit s →
      S.run commit i s = some (b, s') →
      G.inv s' ∧ G.guar i s s' ∧ (post True (.ok a)).holds s' ∧ T s s')
    (hpub : pub commit)
    (hrollback : ∀ e s b s', G.inv s → (mid (.error e)).holds s → C i rollback s →
      S.run rollback i s = some (b, s') →
      G.inv s' ∧ G.guar i s s' ∧ (post False (.error e)).holds s') :
    Truthful pub T post False (Action.transaction commit rollback body).run P := by
  refine Truthful.bind (of_safe hb hp) fun done b => ?_
  cases b with
  | ok a =>
    refine Truthful.query (fun _ => post True (.ok a)) (fun s b s' hs h hC hq => ?_) fun _ => ?_
    · obtain ⟨hs', hg, ha, hT⟩ := hcommit a s b s' hs h.2 hC hq
      exact ⟨hs', hg, ha, fun _ => hT⟩
    · exact fun s _ h => by rwa [eq_true (Or.inr hpub)]
  | error e =>
    refine Truthful.query (fun _ => (Assertion.fact (done ↔ False)).and (post False (.error e)))
      (fun s b s' hs h hC hq => ?_) fun _ s _ h => ?_
    · obtain ⟨hs', hg, he⟩ := hrollback e s b s' hs h.2 hC hq
      exact ⟨hs', hg, ⟨h.1, he⟩, fun hpub => absurd hpub hr⟩
    · rw [eq_false (show ¬ (done ∨ pub rollback) from
        not_or.mpr ⟨fun hdone => h.1.mp hdone, hr⟩)]
      exact h.2

end Truthful

/-! ### Whole runs -/

section Reachable

variable [DecidableEq ι] {pub : {β : Type} → Q β → Prop} {T : ι → ρ → σ → σ → Prop}
  {pre : (i : ι) → Assertion G i} {post : (i : ι) → ρ → Prop → α → Assertion G i}

variable (S C) in
/-- **Process `i` publishes**, serving `r`, by a query that takes `c` to `d`. -/
inductive Publishes (pub : {β : Type} → Q β → Prop) (i : ι) (r : ρ) :
    Config ι σ ρ α Q → Config ι σ ρ α Q → Prop
  | query {c : Config ι σ ρ α Q} {δ : Type} {q : Q δ} {k : δ → Prog ι σ Q α} {b : δ} {s : σ}
      (hi : c.procs i = .running r (.query q k)) (hpub : pub q) (hC : C i q c.db)
      (hq : S.run q i c.db = some (b, s)) :
      Publishes pub i r c ⟨s, setProc i (.running r (k b)) c.procs⟩

/-- A query that publishes is a step of the process. -/
theorem Publishes.stepOf {c d : Config ι σ ρ α Q} {i : ι} {r : ρ}
    (h : Publishes S C pub i r c d) : StepOf S C i c d := by
  cases h with
  | query hi hpub hC hq => exact .query hi hC hq

/-- A process that has published something answers the request it was serving. -/
theorem Publishes.served {c d e : Config ι σ ρ α Q} {i : ι} {r r' : ρ} {a : α}
    (h : Publishes S C pub i r c d) (hde : Reachable S C d e) (hserved : e.Served i r' a) :
    r' = r := by
  cases h with
  | query hi hpub hC hq =>
    rcases Reachable.proc (P := fun _ => True) ⟨fun _ _ => trivial, fun _ _ => trivial⟩ hde
      (setProc_self : setProc i _ c.procs i = _) trivial with hdead | ⟨p, hp, -⟩
    · rw [Config.Served, hdead] at hserved
      cases hserved
    · rw [Config.Served, hp] at hserved
      cases hserved
      rfl

/-- **Every process is where its proof says**, with something that is kept of whether it has
published something. -/
def Contract.Told (G : Contract S C) (pub : {β : Type} → Q β → Prop) (T : ι → ρ → σ → σ → Prop)
    (post : (i : ι) → ρ → Prop → α → Assertion G i)
    (X : ι → ρ → Prop → Config ι σ ρ α Q → Prop) (c : Config ι σ ρ α Q) : Prop :=
  ∀ i r p, c.procs i = .running r p → ∃ (done : Prop) (P : Assertion G i), P.holds c.db ∧
    Truthful pub (T i r) (post i r) done p P ∧ X i r done c

variable {s₀ : σ} {c d e : Config ι σ ρ α Q} {r : ρ} {a : α}
  {X : ι → ρ → Prop → Config ι σ ρ α Q → Prop}

/-- One step keeps what is told of every process, when it keeps `X`. -/
theorem Contract.Told.step (ht : G.Told pub T post X c) (hs : G.inv c.db) (hs' : G.inv d.db)
    (hprog : ∀ i r, Truthful pub (T i r) (post i r) False (S.program i r) (pre i))
    (hpre : ∀ i, c.procs i = .idle → (pre i).holds c.db) (hstep : Step S C c d)
    (hkeep : ∀ i r done, X i r done c → X i r done d)
    (hnew : ∀ i r, c.procs i = .idle → X i r False d)
    (hpublish : ∀ i r, Publishes S C pub i r c d → T i r c.db d.db → X i r True d) :
    G.Told pub T post X d := by
  cases hstep with
  | arrive j r hj =>
    intro i r' p hi
    rcases setProc_running hi with ⟨rfl, hr⟩ | ⟨-, hi⟩
    · cases hr
      exact ⟨False, pre i, hpre i hj, hprog i r, hnew i r hj⟩
    · obtain ⟨done, P, hP, htrue, hX⟩ := ht i r' p hi
      exact ⟨done, P, hP, htrue, hkeep i r' done hX⟩
  | @read j r δ f k hj =>
    intro i r' p hi
    rcases setProc_running hi with ⟨rfl, hr⟩ | ⟨-, hi⟩
    · cases hr
      obtain ⟨done, P, hP, ⟨M, hM, hk⟩, hX⟩ := ht i r _ hj
      exact ⟨done, M (f i c.db), hM c.db hs hP, hk _, hkeep i r done hX⟩
    · obtain ⟨done, P, hP, htrue, hX⟩ := ht i r' p hi
      exact ⟨done, P, hP, htrue, hkeep i r' done hX⟩
  | @query j r δ q k b s hj hC hq =>
    obtain ⟨done, P, hP, ⟨M, hM, hk⟩, hX⟩ := ht j r _ hj
    obtain ⟨-, hg, hb, hT⟩ := hM c.db b s hs hP hC hq
    intro i r' p hi
    rcases setProc_running hi with ⟨rfl, hr⟩ | ⟨hne, hi⟩
    · cases hr
      refine ⟨done ∨ pub q, M b, hb, hk b, ?_⟩
      by_cases hpub : pub q
      · rw [eq_true (Or.inr hpub)]
        exact hpublish i r (.query hj hpub hC hq) (hT hpub)
      · rw [eq_false hpub, or_false]
        exact hkeep i r done hX
    · obtain ⟨done, P, hP, htrue, hX⟩ := ht i r' p hi
      exact ⟨done, P, P.stable hne.symm hs hs' hg hP, htrue, hkeep i r' done hX⟩
  | @crash j r p s hj hC hq =>
    obtain ⟨-, hg⟩ := G.rollback hs hC hq
    intro i r' p' hi
    rcases setProc_running hi with ⟨-, hr⟩ | ⟨hne, hi⟩
    · cases hr
    · obtain ⟨done, P, hP, htrue, hX⟩ := ht i r' p' hi
      exact ⟨done, P, P.stable hne.symm hs hs' hg hP, htrue, hkeep i r' done hX⟩
  | tick n =>
    intro i r p hi
    obtain ⟨done, P, hP, htrue, hX⟩ := ht i r p hi
    exact ⟨done, P, P.tick n hs hP, htrue, hkeep i r done hX⟩

section

variable (hprog : ∀ i r, Truthful pub (T i r) (post i r) False (S.program i r) (pre i))
  (h₀ : G.inv s₀) (hpre : ∀ i, (pre i).holds s₀)
include hprog h₀ hpre

/-- In a run of truthful programs, the invariant holds, and an unused process knows what it is to
know. -/
theorem Contract.known_of_reachable (h : Reachable S C (.initial s₀) c) :
    G.inv c.db ∧ ∀ i, c.procs i = .idle → (pre i).holds c.db := by
  obtain ⟨hs, ht⟩ := G.of_reachable (fun i r => (hprog i r).safe) h₀ hpre h
  exact ⟨hs, ht.idle⟩

/-- The process has published something in the past. -/
def HasPublished (pub : {β : Type} → Q β → Prop) (T : ι → ρ → σ → σ → Prop) (s₀ : σ) (i : ι)
    (r : ρ) (done : Prop) (c : Config ι σ ρ α Q) : Prop :=
  done → ∃ d e, Reachable S C (.initial s₀) d ∧ Publishes S C pub i r d e ∧
    Reachable S C e c ∧ T i r d.db e.db

/-- **What a run of truthful programs tells of every process.** -/
theorem Contract.told_of_reachable (h : Reachable S C (.initial s₀) c) :
    G.Told pub T post (HasPublished (S := S) (C := C) pub T s₀) c := by
  induction h with
  | refl => exact fun i r p hi => nomatch hi
  | @tail c d hrest hstep ih =>
    obtain ⟨hs, hidle⟩ := G.known_of_reachable hprog h₀ hpre hrest
    obtain ⟨hs', -⟩ := G.known_of_reachable hprog h₀ hpre (hrest.tail hstep)
    refine ih.step hs hs' hprog hidle hstep (fun i r done hX hdone => ?_) (fun _ _ _ => False.elim)
      fun i r hpub hT _ => ⟨c, d, hrest, hpub, .refl, hT⟩
    obtain ⟨d', e, hd', hpub, he, hT⟩ := hX hdone
    exact ⟨d', e, hd', hpub, he.tail hstep, hT⟩

/-- **What is known of an answer**, and of what was published before it. -/
theorem Contract.answered (h : Reachable S C (.initial s₀) c) (hserved : c.Served i r a) :
    ∃ done, (post i r done a).holds c.db ∧
      (done → ∃ d e, Reachable S C (.initial s₀) d ∧ Publishes S C pub i r d e ∧
        Reachable S C e c ∧ T i r d.db e.db) := by
  obtain ⟨hs, -⟩ := G.known_of_reachable hprog h₀ hpre h
  obtain ⟨done, P, hP, htrue, hdone⟩ := G.told_of_reachable hprog h₀ hpre h i r _ hserved
  exact ⟨done, htrue c.db hs hP, hdone⟩

/-- **What a process publishes is what `T` says**, and it is known of its answer that it has
published something. -/
theorem Contract.published (h : Reachable S C (.initial s₀) c)
    (hpub : Publishes S C pub i r c d) :
    T i r c.db d.db ∧ ∀ e a, Reachable S C d e → e.Served i r a → (post i r True a).holds e.db := by
  have hd : Reachable S C (.initial s₀) d := h.tail hpub.stepOf.step
  obtain ⟨hs, hidle⟩ := G.known_of_reachable hprog h₀ hpre h
  obtain ⟨hs', -⟩ := G.known_of_reachable hprog h₀ hpre hd
  have ht := G.told_of_reachable hprog h₀ hpre h
  -- the process is running still, and is not unused again
  have hused : ∀ {e}, Reachable S C d e → e.procs i ≠ .idle := by
    intro e hde
    cases hpub with
    | query hi hpub hC hq =>
      rcases Reachable.proc (P := fun _ => True) ⟨fun _ _ => trivial, fun _ _ => trivial⟩ hde
        (setProc_self : setProc i _ c.procs i = _) trivial with hdead | ⟨p, hp, -⟩
      · rw [hdead]
        exact Proc.dead_ne_idle
      · rw [hp]
        exact Proc.running_ne_idle
  have hT : T i r c.db d.db := by
    cases hpub with
    | query hi hpub hC hq =>
      obtain ⟨done, P, hP, ⟨M, hM, hk⟩, -⟩ := ht i r _ hi
      exact (hM c.db _ _ hs hP hC hq).2.2.2 hpub
  refine ⟨hT, fun e a hde hserved => ?_⟩
  -- from this step on, its proof knows that it has published something
  have hkept : G.Told pub T post (fun j _ done _ => j = i → done) e := by
    clear hserved
    induction hde with
    | refl =>
      intro j r' p hj
      cases hpub with
      | @query δ q k b s hi hpub hC hq =>
        rcases setProc_running hj with ⟨rfl, hr⟩ | ⟨hne, -⟩
        · cases hr
          obtain ⟨done, P, hP, ⟨M, hM, hk⟩, -⟩ := ht j r _ hi
          exact ⟨_, M b, (hM c.db b s hs hP hC hq).2.2.1, hk b, fun _ => Or.inr hpub⟩
        · obtain ⟨done, P, hP, htrue, -⟩ :=
            G.told_of_reachable hprog h₀ hpre hd j r' p hj
          exact ⟨done, P, hP, htrue, fun hji => absurd hji hne⟩
    | @tail e f hrest hstep ih =>
      obtain ⟨hs, hidle⟩ := G.known_of_reachable hprog h₀ hpre (hd.trans hrest)
      obtain ⟨hs', -⟩ := G.known_of_reachable hprog h₀ hpre ((hd.trans hrest).tail hstep)
      refine ih.step hs hs' hprog hidle hstep (fun _ _ _ hX => hX) ?_ fun _ _ _ _ _ => trivial
      rintro j r' hj rfl
      exact hused hrest hj
  obtain ⟨hse, -⟩ := G.known_of_reachable hprog h₀ hpre (hd.trans hde)
  obtain ⟨done, P, hP, htrue, hdone⟩ := hkept i r _ hserved
  rw [eq_true (hdone rfl)] at htrue
  exact htrue e.db hse hP

end

/-- Two schedules, with one step of a process between them. -/
theorem exists_of_exec_stepOf_exec (S : System ι σ ρ α Q) (es : List (Event ι ρ)) (i : ι)
    (fs : List (Event ι ρ)) (c : Config ι σ ρ α Q)
    (P : Config ι σ ρ α Q → Config ι σ ρ α Q → Config ι σ ρ α Q → Bool)
    (h : ((exec S es c).any fun d => (exec1 S (.run i) d).any fun d' =>
      (exec S fs d').any (P d d')) = true) :
    ∃ d d' e, Reachable S anyQuery c d ∧ StepOf S anyQuery i d d' ∧ Reachable S anyQuery d' e ∧
      P d d' e = true := by
  obtain ⟨d, hd, h⟩ := (Option.any_eq_true _ _).mp h
  obtain ⟨d', hd', h⟩ := (Option.any_eq_true _ _).mp h
  obtain ⟨e, he, hP⟩ := (Option.any_eq_true _ _).mp h
  exact ⟨d, d', e, reachable_of_exec hd, stepOf_of_exec1 hd', reachable_of_exec he, hP⟩

end Reachable

end ReadCommitted
