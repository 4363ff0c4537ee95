import Marketplace.ReadCommitted.Program

/-!
# Rely and guarantee for interleaved programs

What a program knows at one of its points must survive whatever the other
processes do there. A `ReadCommitted.Contract` fixes the invariant of the store
and what one step of a process may do to it (its *guarantee*); a
`ReadCommitted.Assertion` of process `i` is a condition on the store that no
guaranteed step of another process, and no passing of time, can break. The proof
that a program meets its contract is `ReadCommitted.Safe`, one obligation for each
read and each query, and `ReadCommitted.Contract.of_reachable` puts the proofs of
all programs together: in every configuration that is reached the invariant holds,
every process is where its proof says, and the results that were served are the
ones its postcondition describes.

A property of the store that every query preserves on its own needs none of this,
and has its own rule (`ReadCommitted.invariant_of_queries`).
-/

namespace ReadCommitted

variable {ι σ ρ α γ κ : Type} {Q : Type → Type 1} {S : System ι σ ρ α Q} {C : Proviso ι σ Q}

/-! ### Contracts and assertions -/

/-- **A contract**: the invariant of the store, and what one step of a process may
do to it. -/
structure Contract (S : System ι σ ρ α Q) (C : Proviso ι σ Q) where
  /-- The invariant. -/
  inv : σ → Prop
  /-- What a step of the process may do. -/
  guar : ι → σ → σ → Prop
  /-- The invariant survives time. -/
  inv_tick : ∀ {s : σ} (n : ℕ), inv s → inv (S.tick n s)
  /-- A process may die at any point. -/
  rollback : ∀ {i : ι} {s s' : σ}, inv s → C i S.rollback s →
    S.run S.rollback i s = some ((), s') → inv s' ∧ guar i s s'

/-- **An assertion of process `i`**: what it knows about the store, and that nobody
else can make it false. -/
structure Assertion (G : Contract S C) (i : ι) where
  /-- The condition on the store. -/
  holds : σ → Prop
  /-- No step of another process breaks it. -/
  stable : ∀ {j : ι} {s s' : σ}, j ≠ i → G.inv s → G.inv s' → G.guar j s s' → holds s → holds s'
  /-- Time does not break it. -/
  tick : ∀ {s : σ} (n : ℕ), G.inv s → holds s → holds (S.tick n s)

variable {G : Contract S C} {i : ι}

namespace Assertion

/-- Nothing is known. -/
def any : Assertion G i := ⟨fun _ => True, fun _ _ _ _ _ => trivial, fun _ _ _ => trivial⟩

/-- A fact that is not about the store. -/
def fact (p : Prop) : Assertion G i := ⟨fun _ => p, fun _ _ _ _ h => h, fun _ _ h => h⟩

/-- Both are known. -/
def and (P R : Assertion G i) : Assertion G i where
  holds s := P.holds s ∧ R.holds s
  stable hne hs hs' hg h := ⟨P.stable hne hs hs' hg h.1, R.stable hne hs hs' hg h.2⟩
  tick n hs h := ⟨P.tick n hs h.1, R.tick n hs h.2⟩

/-- It is known for some value. -/
def ex {β : Type} (P : β → Assertion G i) : Assertion G i where
  holds s := ∃ b, (P b).holds s
  stable := fun hne hs hs' hg ⟨b, h⟩ => ⟨b, (P b).stable hne hs hs' hg h⟩
  tick := fun n hs ⟨b, h⟩ => ⟨b, (P b).tick n hs h⟩

/-- It is known if something is so that is not about the store. -/
def imp (p : Prop) (P : Assertion G i) : Assertion G i where
  holds s := p → P.holds s
  stable hne hs hs' hg h hp := P.stable hne hs hs' hg (h hp)
  tick n hs h hp := P.tick n hs (h hp)

/-- One assertion for the values of a program that may fail, and one for its errors. -/
def onOk {ε β : Type} (P : β → Assertion G i) (R : ε → Assertion G i) :
    Except ε β → Assertion G i
  | .ok b => P b
  | .error e => R e

/-- An assertion for an answer that there may not be. -/
def onSome {β : Type} (P : β → Assertion G i) : Option β → Assertion G i
  | some b => P b
  | none => any

variable {s : σ}

@[simp] theorem holds_any : (any : Assertion G i).holds s ↔ True := Iff.rfl

@[simp] theorem holds_fact {p : Prop} : (fact p : Assertion G i).holds s ↔ p := Iff.rfl

@[simp] theorem holds_and {P R : Assertion G i} :
    (P.and R).holds s ↔ P.holds s ∧ R.holds s :=
  Iff.rfl

@[simp] theorem holds_ex {β : Type} {P : β → Assertion G i} :
    (ex P).holds s ↔ ∃ b, (P b).holds s :=
  Iff.rfl

end Assertion

/-! ### Safe programs -/

/-- **The program is safe** from where `P` is known: each of its queries keeps the
invariant and the guarantee, and its result satisfies `post`. -/
def Safe (post : γ → Assertion G i) : Prog ι σ Q γ → Assertion G i → Prop
  | .ret a, P => ∀ s, G.inv s → P.holds s → (post a).holds s
  | .read f k, P => ∃ M : _ → Assertion G i,
      (∀ s, G.inv s → P.holds s → (M (f i s)).holds s) ∧ ∀ b, Safe post (k b) (M b)
  | .query q k, P => ∃ M : _ → Assertion G i,
      (∀ s b s', G.inv s → P.holds s → C i q s → S.run q i s = some (b, s') →
        G.inv s' ∧ G.guar i s s' ∧ (M b).holds s') ∧ ∀ b, Safe post (k b) (M b)

/-- A query that keeps the invariant and the guarantee wherever it is run. -/
def Contract.Sound (G : Contract S C) {β : Type} (q : Q β) : Prop :=
  ∀ i s b s', G.inv s → C i q s → S.run q i s = some (b, s') → G.inv s' ∧ G.guar i s s'

/-- A query that, run where `P` is known, keeps the invariant, the guarantee and `P`. -/
def Contract.Keeps (G : Contract S C) (P : Assertion G i) {β : Type} (q : Q β) : Prop :=
  ∀ s b s', G.inv s → P.holds s → C i q s → S.run q i s = some (b, s') →
    G.inv s' ∧ G.guar i s s' ∧ P.holds s'

/-- What a query does not break is kept beside what it keeps. -/
theorem Contract.Keeps.and {β : Type} {q : Q β} {P R : Assertion G i} (h : G.Keeps P q)
    (hR : ∀ s b s', S.run q i s = some (b, s') → R.holds s → R.holds s') :
    G.Keeps (P.and R) q := by
  intro s b s' hs hPR hC hr
  obtain ⟨hs', hg, hP⟩ := h s b s' hs hPR.1 hC hr
  exact ⟨hs', hg, hP, hR s b s' hr hPR.2⟩

/-- What is known and no step breaks, the process's own included. -/
def Assertion.Lasting (P : Assertion G i) : Prop :=
  ∀ s s', G.inv s → G.inv s' → G.guar i s s' → P.holds s → P.holds s'

/-- A sound query keeps what no step breaks. -/
theorem Contract.Sound.keeps {β : Type} {q : Q β} {P : Assertion G i} (hq : G.Sound q)
    (hP : P.Lasting) : G.Keeps P q := by
  intro s b s' hs h hC hr
  obtain ⟨hs', hg⟩ := hq i s b s' hs hC hr
  exact ⟨hs', hg, hP s s' hs hs' hg h⟩

section Safe

variable {β : Type} {post : γ → Assertion G i} {P R : Assertion G i}

theorem Safe.ret {a : γ} (h : ∀ s, G.inv s → P.holds s → (post a).holds s) :
    Safe post (.ret a) P :=
  h

theorem Safe.read {f : ι → σ → β} {k : β → Prog ι σ Q γ} (M : β → Assertion G i)
    (h : ∀ s, G.inv s → P.holds s → (M (f i s)).holds s) (hk : ∀ b, Safe post (k b) (M b)) :
    Safe post (.read f k) P :=
  ⟨M, h, hk⟩

theorem Safe.query {q : Q β} {k : β → Prog ι σ Q γ} (M : β → Assertion G i)
    (h : ∀ s b s', G.inv s → P.holds s → C i q s → S.run q i s = some (b, s') →
      G.inv s' ∧ G.guar i s s' ∧ (M b).holds s') (hk : ∀ b, Safe post (k b) (M b)) :
    Safe post (.query q k) P :=
  ⟨M, h, hk⟩

/-- A read that one learns nothing from. -/
theorem Safe.read_keep {f : ι → σ → β} {k : β → Prog ι σ Q γ} (hk : ∀ b, Safe post (k b) P) :
    Safe post (.read f k) P :=
  ⟨fun _ => P, fun _ _ h => h, hk⟩

/-- A query that keeps what is known. -/
theorem Safe.query_keep {q : Q β} {k : β → Prog ι σ Q γ} (hq : G.Keeps P q)
    (hk : ∀ b, Safe post (k b) P) : Safe post (.query q k) P :=
  ⟨fun _ => P, hq, hk⟩

/-- What is known may be weakened on the way in, and on the way out. -/
theorem Safe.conseq {p : Prog ι σ Q γ} {post' : γ → Assertion G i} (h : Safe post p P)
    (hin : ∀ s, G.inv s → R.holds s → P.holds s)
    (hout : ∀ a s, G.inv s → (post a).holds s → (post' a).holds s) : Safe post' p R := by
  induction p generalizing P R with
  | ret a => exact fun s hs hR => hout a s hs (h s hs (hin s hs hR))
  | read f k ih =>
    obtain ⟨M, hM, hk⟩ := h
    exact ⟨M, fun s hs hR => hM s hs (hin s hs hR), fun b => ih b (hk b) fun _ _ hb => hb⟩
  | query q k ih =>
    obtain ⟨M, hM, hk⟩ := h
    exact ⟨M, fun s b s' hs hR => hM s b s' hs (hin s hs hR),
      fun b => ih b (hk b) fun _ _ hb => hb⟩

theorem Safe.mono {p : Prog ι σ Q γ} (h : Safe post p P)
    (hin : ∀ s, G.inv s → R.holds s → P.holds s) : Safe post p R :=
  h.conseq hin fun _ _ _ ha => ha

/-- A safe program whose result does not matter. -/
theorem Safe.any_post {p : Prog ι σ Q γ} (h : Safe post p P) : Safe (fun _ => .any) p P :=
  h.conseq (fun _ _ h => h) fun _ _ _ _ => trivial

/-- Where nothing can be known, every program is safe. -/
theorem Safe.of_false {p : Prog ι σ Q γ} (h : ∀ s, ¬ P.holds s) : Safe post p P := by
  induction p generalizing P with
  | ret a => exact fun s _ hP => absurd hP (h s)
  | read f k ih =>
    exact ⟨fun _ => .fact False, fun s _ hP => absurd hP (h s), fun b => ih b fun _ hF => hF⟩
  | query q k ih =>
    exact ⟨fun _ => .fact False, fun s _ _ _ hP => absurd hP (h s), fun b => ih b fun _ hF => hF⟩

/-- What is known and is not about the store may be assumed. -/
theorem Safe.of_fact {p : Prog ι σ Q γ} {φ : Prop} (h : φ → Safe post p P) :
    Safe post p ((Assertion.fact φ).and P) := by
  by_cases hφ : φ
  · exact (h hφ).mono fun _ _ hs => hs.2
  · exact Safe.of_false fun _ hs => hφ hs.1

/-- What is known for some value may be assumed for each. -/
theorem Safe.of_ex {p : Prog ι σ Q γ} {P : β → Assertion G i} (h : ∀ b, Safe post p (P b)) :
    Safe post p (.ex P) := by
  induction p generalizing P with
  | ret a => exact fun s hs ⟨b, hb⟩ => h b s hs hb
  | read f k ih =>
    choose M hM hk using h
    exact ⟨fun d => .ex fun b => M b d, fun s hs ⟨b, hb⟩ => ⟨b, hM b s hs hb⟩,
      fun d => ih d fun b => hk b d⟩
  | query q k ih =>
    choose M hM hk using h
    refine ⟨fun d => .ex fun b => M b d, ?_, fun d => ih d fun b => hk b d⟩
    rintro s d s' hs ⟨b, hb⟩ hC hr
    obtain ⟨hs', hg, hd⟩ := hM b s d s' hs hb hC hr
    exact ⟨hs', hg, b, hd⟩

/-- One safe program after another. -/
theorem Safe.bind {p : Prog ι σ Q β} {f : β → Prog ι σ Q γ} {mid : β → Assertion G i}
    (hp : Safe mid p P) (hf : ∀ b, Safe post (f b) (mid b)) : Safe post (p >>= f) P := by
  induction p generalizing P with
  | ret a => exact (hf a).mono hp
  | read g k ih =>
    obtain ⟨M, hM, hk⟩ := hp
    exact ⟨M, hM, fun b => ih b (hk b)⟩
  | query q k ih =>
    obtain ⟨M, hM, hk⟩ := hp
    exact ⟨M, hM, fun b => ih b (hk b)⟩

/-- **The rule for a loop over a list**: what is known before each round is known
of the elements that remain. -/
theorem Safe.countEach {f : κ → Prog ι σ Q Bool} (I : List κ → Assertion G i)
    (h : ∀ k ks, Safe (fun _ => I ks) (f k) (I (k :: ks))) (ks : List κ) :
    Safe (fun _ => I []) (Prog.countEach ks f) (I ks) := by
  induction ks with
  | nil => exact fun s _ hs => hs
  | cons k ks ih =>
    exact (h k ks).bind fun _ => ih.bind fun _ => fun s _ hs => hs

/-- **The rule for a loop that collects answers**: what is known of those it has, and of the
elements that remain. -/
theorem Safe.takeEach {f : κ → Prog ι σ Q (Option β)} (I : List β → List κ → Assertion G i)
    (hdrop : ∀ bs ks s, G.inv s → (I bs ks).holds s → (I bs []).holds s)
    (h : ∀ bs k ks, Safe (fun b => I (bs ++ b.toList) ks) (f k) (I bs (k :: ks))) (limit : ℕ)
    (bs : List β) (ks : List κ) :
    Safe (fun bs' => I (bs ++ bs') []) (Prog.takeEach f limit ks) (I bs ks) := by
  have hstop : ∀ bs s, (I bs []).holds s → (I (bs ++ []) []).holds s := by
    intro bs s hI
    rw [List.append_nil]
    exact hI
  induction ks generalizing limit bs with
  | nil => cases limit <;> exact fun s _ hI => hstop bs s hI
  | cons k ks ih =>
    cases limit with
    | zero => exact fun s hs hI => hstop bs s (hdrop bs _ s hs hI)
    | succ limit =>
      refine (h bs k ks).bind fun b => ?_
      cases b with
      | some b =>
        refine (ih limit (bs ++ [b])).bind fun bs' => ?_
        exact fun s _ hI => by simpa using hI
      | none =>
        refine (ih (limit + 1) bs).mono fun s _ hI => ?_
        simpa using hI

/-- **A program all of whose queries keep what is known.** -/
theorem Safe.keep {p : Prog ι σ Q γ} (h : p.Each fun q => G.Keeps P q) : Safe (fun _ => P) p P := by
  induction p with
  | ret a => exact fun _ _ h => h
  | read f k ih => exact Safe.read_keep fun b => ih b (h b)
  | query q k ih => exact Safe.query_keep h.1 fun b => ih b (h.2 b)

/-- A program all of whose queries are sound. -/
theorem Safe.of_sound {p : Prog ι σ Q γ} (h : p.Each fun q => G.Sound q) :
    Safe (fun _ => .any) p (.any : Assertion G i) :=
  Safe.keep (h.mono fun _ hq s b s' hs _ hC hr =>
    ⟨(hq i s b s' hs hC hr).1, (hq i s b s' hs hC hr).2, trivial⟩)

/-- **The frame rule**: what no query of a program breaks is still known after it. -/
theorem Safe.frame {p : Prog ι σ Q γ} (h : Safe post p P)
    (hR : p.Each fun q => ∀ s b s', S.run q i s = some (b, s') → R.holds s → R.holds s') :
    Safe (fun a => (post a).and R) p (P.and R) := by
  induction p generalizing P with
  | ret a => exact fun s hs hPR => ⟨h s hs hPR.1, hPR.2⟩
  | read f k ih =>
    obtain ⟨M, hM, hk⟩ := h
    exact ⟨fun b => (M b).and R, fun s hs hPR => ⟨hM s hs hPR.1, hPR.2⟩,
      fun b => ih b (hk b) (hR b)⟩
  | query q k ih =>
    obtain ⟨M, hM, hk⟩ := h
    refine ⟨fun b => (M b).and R, fun s b s' hs hPR hC hr => ?_, fun b => ih b (hk b) (hR.2 b)⟩
    obtain ⟨hs', hg, hb⟩ := hM s b s' hs hPR.1 hC hr
    exact ⟨hs', hg, hb, hR.1 s b s' hr hPR.2⟩

end Safe

/-! ### Asking for more -/

section Adding

/-- **The contract, with one more condition on steps**, which rolling back has to meet. -/
def Contract.adding (G : Contract S C) (R : ι → σ → σ → Prop)
    (hR : ∀ i s s', S.run S.rollback i s = some ((), s') → R i s s') : Contract S C where
  inv := G.inv
  guar i s s' := G.guar i s s' ∧ R i s s'
  inv_tick := G.inv_tick
  rollback hs hC hr := ⟨(G.rollback hs hC hr).1, (G.rollback hs hC hr).2, hR _ _ _ hr⟩

variable {R : ι → σ → σ → Prop} {hR : ∀ i s s', S.run S.rollback i s = some ((), s') → R i s s'}

/-- What is known under a contract is known under one that asks for more. -/
def Assertion.adding (P : Assertion G i) : Assertion (G.adding R hR) i where
  holds := P.holds
  stable hne hs hs' hg := P.stable hne hs hs' hg.1
  tick := P.tick

/-- **A program is safe under the contract that asks for more**, if its queries meet the new
condition. -/
theorem Safe.adding {post : γ → Assertion G i} {P : Assertion G i} {p : Prog ι σ Q γ}
    (h : Safe post p P) (hp : p.Each fun q => ∀ s b s', S.run q i s = some (b, s') → R i s s') :
    Safe (fun a => ((post a).adding : Assertion (G.adding R hR) i)) p P.adding := by
  induction p generalizing P with
  | ret a => exact h
  | read f k ih =>
    obtain ⟨M, hM, hk⟩ := h
    exact ⟨fun b => (M b).adding, hM, fun b => ih b (hk b) (hp b)⟩
  | query q k ih =>
    obtain ⟨M, hM, hk⟩ := h
    refine ⟨fun b => (M b).adding, fun s b s' hs hP hC hr => ?_, fun b => ih b (hk b) (hp.2 b)⟩
    obtain ⟨hs', hg, hb⟩ := hM s b s' hs hP hC hr
    exact ⟨hs', ⟨hg, hp.1 s b s' hr⟩, hb⟩

end Adding

section Action

variable {ε β : Type} {post : Except ε γ → Assertion G i} {P : Assertion G i}

/-- A program that does not fail, as one that may. -/
theorem Safe.ofProg {p : Prog ι σ Q β} {mid : β → Assertion G i} {R : ε → Assertion G i}
    (hp : Safe mid p P) : Safe (Assertion.onOk mid R) (Action.ofProg p : Action ι σ Q ε β).run P :=
  hp.bind fun _ => fun _ _ h => h

/-- One program that may fail after another: an error of the first is the result. -/
theorem Safe.andThen {p : Action ι σ Q ε β} {k : β → Action ι σ Q ε γ} (mid : β → Assertion G i)
    (hp : Safe (Assertion.onOk mid fun e => post (.error e)) p.run P)
    (hk : ∀ b, Safe post (k b).run (mid b)) : Safe post (p >>= k).run P := by
  refine Safe.bind hp fun b => ?_
  cases b with
  | ok b => exact hk b
  | error e => exact fun s _ h => h

/-- A program that may fail and keeps what is known, before another one. -/
theorem Safe.keep_andThen {p : Action ι σ Q ε β} {k : β → Action ι σ Q ε γ}
    (hp : p.run.Each fun q => G.Keeps P q)
    (herr : ∀ e s, G.inv s → P.holds s → (post (.error e)).holds s)
    (hk : ∀ b, Safe post (k b).run P) : Safe post (p >>= k).run P := by
  refine Safe.andThen (fun _ => P) ((Safe.keep hp).conseq (fun _ _ h => h) fun b s hs h => ?_) hk
  cases b with
  | ok b => exact h
  | error e => exact herr e s hs h

/-- A look at the store, before another program. -/
theorem Safe.look_andThen {f : ι → σ → β} {k : β → Action ι σ Q ε γ} (M : β → Assertion G i)
    (h : ∀ s, G.inv s → P.holds s → (M (f i s)).holds s) (hk : ∀ b, Safe post (k b).run (M b)) :
    Safe post (Action.look f >>= k).run P :=
  Safe.read M h hk

/-- A look at the store that one learns nothing from, before another program. -/
theorem Safe.look_keep {f : ι → σ → β} {k : β → Action ι σ Q ε γ}
    (hk : ∀ b, Safe post (k b).run P) : Safe post (Action.look f >>= k).run P :=
  Safe.read_keep hk

/-- One query, before another program. -/
theorem Safe.query_andThen {q : Q β} {k : β → Action ι σ Q ε γ} (M : β → Assertion G i)
    (h : ∀ s b s', G.inv s → P.holds s → C i q s → S.run q i s = some (b, s') →
      G.inv s' ∧ G.guar i s s' ∧ (M b).holds s') (hk : ∀ b, Safe post (k b).run (M b)) :
    Safe post (Action.query q >>= k).run P :=
  Safe.query M h hk

/-- **The rule for transactions.** -/
theorem Safe.transaction {commit rollback : Q Unit} {body : Action ι σ Q ε γ}
    (mid : Except ε γ → Assertion G i) (hb : Safe mid body.run P)
    (hc : ∀ a s b s', G.inv s → (mid (.ok a)).holds s → C i commit s →
      S.run commit i s = some (b, s') →
      G.inv s' ∧ G.guar i s s' ∧ (post (.ok a)).holds s')
    (hr : ∀ e s b s', G.inv s → (mid (.error e)).holds s → C i rollback s →
      S.run rollback i s = some (b, s') →
      G.inv s' ∧ G.guar i s s' ∧ (post (.error e)).holds s') :
    Safe post (Action.transaction commit rollback body).run P := by
  refine Safe.bind hb fun b => ?_
  cases b with
  | ok a => exact ⟨fun _ => post (.ok a), hc a, fun _ s _ h => h⟩
  | error e => exact ⟨fun _ => post (.error e), hr e, fun _ s _ h => h⟩

end Action

/-! ### Whole runs -/

section Reachable

variable [DecidableEq ι] {pre : (i : ι) → Assertion G i} {post : (i : ι) → ρ → α → Assertion G i}

/-- Every process is where its proof says: `pre` is known to those that have not been
used. -/
structure Contract.Tracked (G : Contract S C) (pre : (i : ι) → Assertion G i)
    (post : (i : ι) → ρ → α → Assertion G i) (c : Config ι σ ρ α Q) : Prop where
  /-- A process that has not been used. -/
  idle : ∀ i, c.procs i = .idle → (pre i).holds c.db
  /-- A running process. -/
  running : ∀ i r p, c.procs i = .running r p →
    ∃ P : Assertion G i, P.holds c.db ∧ Safe (post i r) p P

omit [DecidableEq ι] in
/-- The other processes do not lose their place to a guaranteed step. -/
theorem Contract.Tracked.of_guar {c d : Config ι σ ρ α Q} (h : G.Tracked pre post c) {j : ι}
    (hs : G.inv c.db) (hs' : G.inv d.db) (hg : G.guar j c.db d.db)
    (hidle : ∀ i, d.procs i = .idle → i ≠ j ∧ c.procs i = .idle)
    (hself : ∀ r p, d.procs j = .running r p →
      ∃ P : Assertion G j, P.holds d.db ∧ Safe (post j r) p P)
    (hother : ∀ i r p, i ≠ j → d.procs i = .running r p → c.procs i = .running r p) :
    G.Tracked pre post d := by
  refine ⟨fun i hi => ?_, fun i r p hi => ?_⟩
  · obtain ⟨hne, hc⟩ := hidle i hi
    exact (pre i).stable hne.symm hs hs' hg (h.idle i hc)
  · by_cases hne : i = j
    · subst hne
      exact hself r p hi
    · obtain ⟨P, hP, hsafe⟩ := h.running i r p (hother i r p hne hi)
      exact ⟨P, P.stable (Ne.symm hne) hs hs' hg hP, hsafe⟩

/-- One step keeps the invariant, and every process its place. -/
theorem Contract.step (hprog : ∀ i r, Safe (post i r) (S.program i r) (pre i))
    {c d : Config ι σ ρ α Q} (h : Step S C c d) (hs : G.inv c.db) (ht : G.Tracked pre post c) :
    G.inv d.db ∧ G.Tracked pre post d := by
  cases h with
  | arrive i r hi =>
    refine ⟨hs, fun j hj => ?_, fun j r' p hj => ?_⟩
    · rcases eq_or_ne j i with rfl | hne
      · exact ht.idle j hi
      · exact ht.idle j (by rw [← hj]; exact (setProc_of_ne hne).symm)
    · rcases setProc_running hj with ⟨rfl, hr⟩ | ⟨-, hj⟩
      · cases hr
        exact ⟨pre j, ht.idle j hi, hprog j r⟩
      · exact ht.running j r' p hj
  | @read i r δ f k hi =>
    obtain ⟨P, hP, M, hM, hk⟩ := ht.running i r _ hi
    refine ⟨hs, fun j hj => ht.idle j (setProc_idle hj Proc.running_ne_idle).2, fun j r' p hj => ?_⟩
    rcases setProc_running hj with ⟨rfl, hr⟩ | ⟨-, hj⟩
    · cases hr
      exact ⟨M (f j c.db), hM c.db hs hP, hk _⟩
    · exact ht.running j r' p hj
  | @query i r δ q k b s hi hC hq =>
    obtain ⟨P, hP, M, hM, hk⟩ := ht.running i r _ hi
    obtain ⟨hs', hg, hb⟩ := hM c.db b s hs hP hC hq
    refine ⟨hs', ht.of_guar hs hs' hg (fun j hj => setProc_idle hj Proc.running_ne_idle) ?_
      fun j r' p hne hj => ?_⟩
    · intro r' p hj
      obtain ⟨-, hr⟩ | ⟨hne, -⟩ := setProc_running hj
      · cases hr
        exact ⟨M b, hb, hk b⟩
      · exact absurd rfl hne
    · rw [← hj]
      exact (setProc_of_ne hne).symm
  | @crash i r p s hi hC hq =>
    obtain ⟨hs', hg⟩ := G.rollback hs hC hq
    refine ⟨hs', ht.of_guar hs hs' hg (fun j hj => setProc_idle hj Proc.dead_ne_idle) ?_
      fun j r' p' hne hj => ?_⟩
    · intro r' p' hj
      obtain ⟨-, hr⟩ | ⟨hne, -⟩ := setProc_running hj
      · cases hr
      · exact absurd rfl hne
    · rw [← hj]
      exact (setProc_of_ne hne).symm
  | tick n =>
    refine ⟨G.inv_tick n hs, fun j hj => (pre j).tick n hs (ht.idle j hj), fun j r p hj => ?_⟩
    obtain ⟨P, hP, hsafe⟩ := ht.running j r p hj
    exact ⟨P, P.tick n hs hP, hsafe⟩

/-- **Rely and guarantee**: if every program is safe, then in every configuration
that is reached the invariant holds and every process is where its proof says. -/
theorem Contract.of_reachable (hprog : ∀ i r, Safe (post i r) (S.program i r) (pre i)) {s₀ : σ}
    (h₀ : G.inv s₀) (hpre : ∀ i, (pre i).holds s₀) {c : Config ι σ ρ α Q}
    (h : Reachable S C (.initial s₀) c) : G.inv c.db ∧ G.Tracked pre post c := by
  induction h with
  | refl => exact ⟨h₀, fun i _ => hpre i, fun i r p hi => nomatch hi⟩
  | tail _ hstep ih => exact G.step hprog hstep ih.1 ih.2

/-- **What one step does to the store**: nothing, a guaranteed step of a process, or time. -/
theorem Contract.guar_of_step {c d : Config ι σ ρ α Q} (h : Step S C c d) (hs : G.inv c.db)
    (ht : G.Tracked pre post c) :
    d.db = c.db ∨ (∃ i, G.guar i c.db d.db) ∨ ∃ n, d.db = S.tick n c.db := by
  cases h with
  | arrive => exact Or.inl rfl
  | read => exact Or.inl rfl
  | @query i r δ q k b s hi hC hq =>
    obtain ⟨P, hP, M, hM, -⟩ := ht.running i r _ hi
    exact Or.inr (Or.inl ⟨i, (hM _ _ _ hs hP hC hq).2.1⟩)
  | @crash i r p s hi hC hq => exact Or.inr (Or.inl ⟨i, (G.rollback hs hC hq).2⟩)
  | tick n => exact Or.inr (Or.inr ⟨n, rfl⟩)

omit [DecidableEq ι] in
/-- The results that were served satisfy their postcondition. -/
theorem Contract.Tracked.served {c : Config ι σ ρ α Q} (h : G.Tracked pre post c)
    (hs : G.inv c.db) {i : ι} {r : ρ} {a : α} (hserved : c.Served i r a) :
    (post i r a).holds c.db := by
  obtain ⟨P, hP, hsafe⟩ := h.running i r _ hserved
  exact hsafe c.db hs hP

/-- **What every guaranteed step does to the store, a whole run does**, when it can be
composed. -/
theorem Contract.rel_of_reachable (hprog : ∀ i r, Safe (post i r) (S.program i r) (pre i))
    (R : σ → σ → Prop) (hrefl : ∀ s, R s s) (htrans : ∀ s t u, R s t → R t u → R s u)
    (hguar : ∀ i s s', G.inv s → G.inv s' → G.guar i s s' → R s s')
    (htick : ∀ s n, R s (S.tick n s)) {c d : Config ι σ ρ α Q} (hs : G.inv c.db)
    (ht : G.Tracked pre post c) (h : Reachable S C c d) :
    R c.db d.db ∧ G.inv d.db ∧ G.Tracked pre post d := by
  induction h with
  | refl => exact ⟨hrefl _, hs, ht⟩
  | tail _ hstep ih =>
    obtain ⟨hR, hs, ht⟩ := ih
    obtain ⟨hs', ht'⟩ := G.step hprog hstep hs ht
    refine ⟨htrans _ _ _ hR ?_, hs', ht'⟩
    obtain hsame | ⟨i, hg⟩ | ⟨n, htime⟩ := G.guar_of_step hstep hs ht
    · rw [hsame]
      exact hrefl _
    · exact hguar i _ _ hs hs' hg
    · rw [htime]
      exact htick _ n

/-- **A process that was about to look at the store, and has served its request, did look**: at
the store of some moment between, where it still knew what it knew. -/
theorem Contract.exists_read (hprog : ∀ i r, Safe (post i r) (S.program i r) (pre i))
    {c d : Config ι σ ρ α Q} (hs : G.inv c.db) (ht : G.Tracked pre post c) {i : ι} {r : ρ} {a : α}
    {δ : Type} {f : ι → σ → δ} {k : δ → Prog ι σ Q α} {P : Assertion G i} (hP : P.holds c.db)
    (hi : c.procs i = .running r (.read f k)) (h : Reachable S C c d) (hd : d.Served i r a) :
    ∃ e, Reachable S C c e ∧ e.procs i = .running r (.read f k) ∧ P.holds e.db ∧
      Reachable S C ⟨e.db, setProc i (.running r (k (f i e.db))) e.procs⟩ d := by
  induction h using Relation.ReflTransGen.head_induction_on with
  | refl =>
    rw [Config.Served, hi] at hd
    cases hd
  | @head c e hstep hrest ih =>
    -- the step is the read itself, the death of the process, or none of its steps
    by_cases hread : e = ⟨c.db, setProc i (.running r (k (f i c.db))) c.procs⟩
    · subst hread
      exact ⟨c, .refl, hi, hP, hrest⟩
    by_cases hdead : e.procs i = .dead
    · rw [Config.Served, Reachable.dead hrest hdead] at hd
      cases hd
    obtain ⟨hs', ht'⟩ := G.step hprog hstep hs ht
    have hstay : e.procs i = .running r (.read f k) ∧ P.holds e.db := by
      cases hstep with
      | arrive j r' hj =>
        have hne : i ≠ j := by
          rintro rfl
          rw [hi] at hj
          cases hj
        exact ⟨(setProc_of_ne hne).trans hi, hP⟩
      | @read j r' δ' f' k' hj =>
        rcases eq_or_ne i j with rfl | hne
        · rw [hi] at hj
          cases hj
          exact absurd rfl hread
        · exact ⟨(setProc_of_ne hne).trans hi, hP⟩
      | @query j r' δ' q k' b s hj hC hq =>
        have hne : i ≠ j := by
          rintro rfl
          rw [hi] at hj
          cases hj
        obtain ⟨P', hP', M, hM, -⟩ := ht.running j r' _ hj
        obtain ⟨hs', hg, -⟩ := hM _ _ _ hs hP' hC hq
        exact ⟨(setProc_of_ne hne).trans hi, P.stable hne.symm hs hs' hg hP⟩
      | @crash j r' p s hj hC hq =>
        rcases eq_or_ne i j with rfl | hne
        · exact absurd setProc_self hdead
        · obtain ⟨hs', hg⟩ := G.rollback hs hC hq
          exact ⟨(setProc_of_ne hne).trans hi, P.stable hne.symm hs hs' hg hP⟩
      | tick n => exact ⟨hi, P.tick n hs hP⟩
    obtain ⟨e', he', hrest'⟩ := ih hs' ht' hstay.2 hstay.1
    exact ⟨e', .head hstep he', hrest'⟩

/-- What process `i` has left to run is made of queries it may issue. -/
theorem each_of_reachable {φ : ι → {β : Type} → Q β → Prop}
    (hprog : ∀ i r, (S.program i r).Each (φ i)) {s₀ : σ} {c : Config ι σ ρ α Q}
    (h : Reachable S C (.initial s₀) c) {i : ι} {r : ρ} {p : Prog ι σ Q α}
    (hi : c.procs i = .running r p) : p.Each (φ i) := by
  induction h generalizing i r p with
  | refl => exact nomatch hi
  | tail _ hstep ih =>
    cases hstep with
    | arrive j r' hj =>
      rcases setProc_running hi with ⟨rfl, hr⟩ | ⟨-, hi⟩
      · cases hr
        exact hprog _ _
      · exact ih hi
    | read hj =>
      rcases setProc_running hi with ⟨rfl, hr⟩ | ⟨-, hi⟩
      · cases hr
        exact ih hj _
      · exact ih hi
    | query hj hC hq =>
      rcases setProc_running hi with ⟨rfl, hr⟩ | ⟨-, hi⟩
      · cases hr
        exact (ih hj).2 _
      · exact ih hi
    | crash hj hC hq =>
      rcases setProc_running hi with ⟨-, hr⟩ | ⟨-, hi⟩
      · cases hr
      · exact ih hi
    | tick n => exact ih hi

/-- What a step does to the store: nothing, or a query that its process may issue, or time
passes. -/
theorem run_of_step {φ : ι → {β : Type} → Q β → Prop}
    (hprog : ∀ i r, (S.program i r).Each (φ i)) (hrb : ∀ i, φ i S.rollback) {s₀ : σ}
    {c d : Config ι σ ρ α Q} (hreach : Reachable S C (.initial s₀) c) (h : Step S C c d) :
    d.db = c.db ∨
      (∃ (i : ι) (β : Type) (q : Q β) (b : β),
        φ i q ∧ C i q c.db ∧ S.run q i c.db = some (b, d.db)) ∨
      ∃ n, d.db = S.tick n c.db := by
  cases h with
  | arrive => exact Or.inl rfl
  | read => exact Or.inl rfl
  | query hi hC hq =>
    exact Or.inr (Or.inl ⟨_, _, _, _, (each_of_reachable hprog hreach hi).1, hC, hq⟩)
  | crash hi hC hq => exact Or.inr (Or.inl ⟨_, _, _, _, hrb _, hC, hq⟩)
  | tick n => exact Or.inr (Or.inr ⟨n, rfl⟩)

/-- **An invariant that every query preserves where another one holds** already, which is known
of every configuration that is reached. -/
theorem invariant_beside (J I : σ → Prop) {φ : ι → {β : Type} → Q β → Prop}
    (hprog : ∀ i r, (S.program i r).Each (φ i)) (hrb : ∀ i, φ i S.rollback) {s₀ : σ}
    (hJ : ∀ {c : Config ι σ ρ α Q}, Reachable S C (.initial s₀) c → J c.db)
    (hrun : ∀ {β : Type} (q : Q β) i s b s',
      J s → I s → φ i q → C i q s → S.run q i s = some (b, s') → I s')
    (htick : ∀ s n, I s → I (S.tick n s)) (h₀ : I s₀) {c : Config ι σ ρ α Q}
    (h : Reachable S C (.initial s₀) c) : I c.db := by
  induction h with
  | refl => exact h₀
  | tail hreach hstep ih =>
    obtain hd | ⟨i, β, q, b, hφ, hC, hq⟩ | ⟨n, hd⟩ := run_of_step hprog hrb hreach hstep
    · rw [hd]
      exact ih
    · exact hrun q i _ b _ (hJ hreach) ih hφ hC hq
    · rw [hd]
      exact htick _ n ih

/-- **What every query does to the store where an invariant holds** already, when it can be
composed, relates the ends of a run. -/
theorem rel_beside (J : σ → Prop) (R : σ → σ → Prop) {φ : ι → {β : Type} → Q β → Prop}
    (hrefl : ∀ s, R s s) (htrans : ∀ s t u, R s t → R t u → R s u)
    (hprog : ∀ i r, (S.program i r).Each (φ i)) (hrb : ∀ i, φ i S.rollback) {s₀ : σ}
    (hJ : ∀ {c : Config ι σ ρ α Q}, Reachable S C (.initial s₀) c → J c.db)
    (hrun : ∀ {β : Type} (q : Q β) i s b s',
      J s → φ i q → C i q s → S.run q i s = some (b, s') → R s s')
    (htick : ∀ s n, R s (S.tick n s)) {c d : Config ι σ ρ α Q}
    (hc : Reachable S C (.initial s₀) c) (h : Reachable S C c d) : R c.db d.db := by
  induction h with
  | refl => exact hrefl _
  | tail hcd hstep ih =>
    have hreach := hc.trans hcd
    obtain hd | ⟨i, β, q, b, hφ, hC, hq⟩ | ⟨n, hd⟩ := run_of_step hprog hrb hreach hstep
    · rw [hd]
      exact ih
    · exact htrans _ _ _ ih (hrun q i _ b _ (hJ hreach) hφ hC hq)
    · rw [hd]
      exact htrans _ _ _ ih (htick _ n)

/-- **An invariant that every query preserves on its own** holds in every
configuration that is reached; `φ i` says which queries process `i` may issue. -/
theorem invariant_of_queries (I : σ → Prop) {φ : ι → {β : Type} → Q β → Prop}
    (hprog : ∀ i r, (S.program i r).Each (φ i)) (hrb : ∀ i, φ i S.rollback)
    (hrun : ∀ {β : Type} (q : Q β) i s b s',
      I s → φ i q → C i q s → S.run q i s = some (b, s') → I s')
    (htick : ∀ s n, I s → I (S.tick n s)) {s₀ : σ} (h₀ : I s₀) {c : Config ι σ ρ α Q}
    (h : Reachable S C (.initial s₀) c) : I c.db :=
  invariant_beside (fun _ => True) I hprog hrb (fun _ => trivial)
    (fun q i s b s' _ => hrun q i s b s') htick h₀ h

/-- An invariant that every query preserves, whichever process issues it. -/
theorem invariant_of_run (I : σ → Prop)
    (hrun : ∀ {β : Type} (q : Q β) i s b s', I s → C i q s → S.run q i s = some (b, s') → I s')
    (htick : ∀ s n, I s → I (S.tick n s)) {s₀ : σ} (h₀ : I s₀) {c : Config ι σ ρ α Q}
    (h : Reachable S C (.initial s₀) c) : I c.db := by
  have hprog : ∀ i r, (S.program i r).Each fun {_} _ => True :=
    fun i r => Prog.each_of_forall fun _ => trivial
  exact invariant_of_queries I hprog (fun _ => trivial)
    (fun q i s b s' hs _ => hrun q i s b s' hs) htick h₀ h

/-- **An invariant that every query preserves, and what every query does to the store**,
when it can be composed: the one holds, and the other relates the ends, along a run. -/
theorem rel_of_run (I : σ → Prop) (R : σ → σ → Prop) (hrefl : ∀ s, R s s)
    (htrans : ∀ s t u, R s t → R t u → R s u)
    (hrun : ∀ {β : Type} (q : Q β) i s b s', I s → C i q s → S.run q i s = some (b, s') →
      I s' ∧ R s s')
    (htick : ∀ s n, I s → I (S.tick n s) ∧ R s (S.tick n s)) {c d : Config ι σ ρ α Q}
    (hs : I c.db) (h : Reachable S C c d) : I d.db ∧ R c.db d.db := by
  induction h with
  | refl => exact ⟨hs, hrefl _⟩
  | tail _ hstep ih =>
    obtain ⟨hI, hR⟩ := ih
    cases hstep with
    | arrive => exact ⟨hI, hR⟩
    | read => exact ⟨hI, hR⟩
    | query hi hC hq =>
      obtain ⟨hI', hR'⟩ := hrun _ _ _ _ _ hI hC hq
      exact ⟨hI', htrans _ _ _ hR hR'⟩
    | crash hi hC hq =>
      obtain ⟨hI', hR'⟩ := hrun _ _ _ _ _ hI hC hq
      exact ⟨hI', htrans _ _ _ hR hR'⟩
    | tick n =>
      obtain ⟨hI', hR'⟩ := htick _ n hI
      exact ⟨hI', htrans _ _ _ hR hR'⟩

end Reachable

end ReadCommitted
