import Marketplace.ReadCommitted.Answers
import Marketplace.ReadCommitted.RelyGuarantee

/-!
# Sections that processes take in turn

A program that but looks at the store, until it comes to a section of several queries of its own
(`ReadCommitted.Prog.Approaches`), does the store no harm before. If no process goes on with its
section while another one is in the midst of its own (`ReadCommitted.Orderly`), a section has the
store to itself, and a proof that it is safe alone, by the rules of `ReadCommitted.Safe`, is a proof
about all of them (`ReadCommitted.Turns.told_of_ended`).

A section need not be one transaction for that. It must *seal itself*, though: from its first query
that publishes, it answers as expected, unless its process dies. Where processes do not die then, a
request that fails has published nothing (`ReadCommitted.view_eq_of_failed`).
-/

namespace ReadCommitted

variable {ι σ ρ α γ β ν : Type} {Q : Type → Type 1}

namespace Prog

/-! ### Sections of a program -/

/-- What may be left of a program after its next step. -/
inductive Next : Prog ι σ Q α → Prog ι σ Q α → Prop
  | read {δ : Type} (f : ι → σ → δ) (k : δ → Prog ι σ Q α) (b : δ) : Next (.read f k) (k b)
  | query {δ : Type} (q : Q δ) (k : δ → Prog ι σ Q α) (b : δ) : Next (.query q k) (k b)

/-- **In the midst of a section**: a part of one that begins as `entry` says is done, and a part of
it is left. -/
def Midst (entry : Prog ι σ Q α → Prop) (p : Prog ι σ Q α) : Prop :=
  (∃ e, entry e ∧ Relation.TransGen Next e p) ∧ ∀ a, p ≠ .ret a

/-- The program but looks at the store, until it comes to a section, or to an answer. -/
inductive Approaches (entry : Prog ι σ Q α → Prop) : Prog ι σ Q α → Prop
  | ret (a : α) : Approaches entry (.ret a)
  | entry {e : Prog ι σ Q α} (h : entry e) : Approaches entry e
  | read {δ : Type} {f : ι → σ → δ} {k : δ → Prog ι σ Q α} (h : ∀ b, Approaches entry (k b)) :
      Approaches entry (.read f k)

/-! ### Programs that seal themselves -/

/-- Once the program has published, what is left of it is of the shape `after`, when its queries
answer as they can. -/
def Seals (S : System ι σ ρ α Q) (pub : {β : Type} → Q β → Prop) (after : Prog ι σ Q γ → Prop) :
    Prog ι σ Q γ → Prop
  | ret _ => True
  | read _ k => ∀ b, (k b).Seals S pub after
  | query q k => ∀ b, (∃ i s s', S.run q i s = some (b, s')) →
      (pub q → after (k b)) ∧ (k b).Seals S pub after

/-- Every answer that the program can come to is one of these, when its queries answer as they
can. -/
def Comes (S : System ι σ ρ α Q) (ok : γ → Prop) : Prog ι σ Q γ → Prop
  | ret a => ok a
  | read _ k => ∀ b, (k b).Comes S ok
  | query q k => ∀ b, (∃ i s s', S.run q i s = some (b, s')) → (k b).Comes S ok

variable {pub : {β : Type} → Q β → Prop} {S : System ι σ ρ α Q} {p : Prog ι σ Q γ}

/-- A program that publishes nothing, before one that seals itself. -/
theorem seals_bind {f : γ → Prog ι σ Q β} {after : Prog ι σ Q β → Prop}
    (hp : p.Each fun q => ¬ pub q) (hf : ∀ a, (f a).Seals S pub after) :
    (p >>= f).Seals S pub after := by
  induction p with
  | ret a => exact hf a
  | read g k ih => exact fun b => ih b (hp b)
  | query q k ih => exact fun b _ => ⟨fun hq => absurd hq hp.1, ih b (hp.2 b)⟩

theorem seals_bind_bind {f : γ → Prog ι σ Q β} {g : β → Prog ι σ Q ν} {after : Prog ι σ Q ν → Prop}
    (hp : p.Each fun q => ¬ pub q) (hf : ∀ a, (f a >>= g).Seals S pub after) :
    ((p >>= f) >>= g).Seals S pub after := by
  induction p with
  | ret a => exact hf a
  | read h k ih => exact fun b => ih b (hp b)
  | query q k ih => exact fun b _ => ⟨fun hq => absurd hq hp.1, ih b (hp.2 b)⟩

theorem Comes.bind {f : γ → Prog ι σ Q β} {ok : γ → Prop} {ok' : β → Prop} (hp : p.Comes S ok)
    (hf : ∀ a, ok a → (f a).Comes S ok') : (p >>= f).Comes S ok' := by
  induction p with
  | ret a => exact hf a hp
  | read g k ih => exact fun b => ih b (hp b)
  | query q k ih => exact fun b hb => ih b (hp b hb)

end Prog

theorem closedIn_seals {S : System ι σ ρ α Q} {pub : {β : Type} → Q β → Prop}
    {after : Prog ι σ Q α → Prop} : ClosedIn S (Prog.Seals S pub after : Prog ι σ Q α → Prop) :=
  ⟨fun h b => h b, fun h hb => (h _ hb).2⟩

/-- What passes to what is left of a program seals it. -/
theorem ClosedIn.seals {S : System ι σ ρ α Q} {pub : {β : Type} → Q β → Prop}
    {after : Prog ι σ Q γ → Prop} (hafter : ClosedIn S after) {p : Prog ι σ Q γ} (hp : after p) :
    p.Seals S pub after := by
  induction p with
  | ret a => trivial
  | read g k ih => exact fun b => ih b (hafter.read hp b)
  | query q k ih =>
    exact fun b hb => ⟨fun _ => hafter.query hp hb, ih b (hafter.query hp hb)⟩

/-- **A transaction before what is sealed**: the commit is what seals it. -/
theorem seals_transaction_andThen {ε : Type} {S : System ι σ ρ α Q} {pub : {β : Type} → Q β → Prop}
    {after : Prog ι σ Q (Except ε γ) → Prop} (hafter : ClosedIn S after) {commit rollback : Q Unit}
    {body : Action ι σ Q ε β} {k : β → Action ι σ Q ε γ} (hbody : body.run.Each fun q => ¬ pub q)
    (hrollback : ¬ pub rollback) (hk : ∀ b, after (k b).run) :
    (Action.transaction commit rollback body >>= k).run.Seals S pub after := by
  refine Prog.seals_bind_bind hbody fun b => ?_
  cases b with
  | ok b => exact fun _ _ => ⟨fun _ => hk b, hafter.seals (hk b)⟩
  | error e => exact fun _ _ => ⟨fun hpub => absurd hpub hrollback, trivial⟩

/-! ### Runs in which sections are taken in turn -/

section Orderly

/-- A process is in the midst of its section. -/
def Config.Midst (entry : ρ → Prog ι σ Q α → Prop) (c : Config ι σ ρ α Q) (i : ι) : Prop :=
  ∃ r p, c.procs i = .running r p ∧ p.Midst (entry r)

variable [DecidableEq ι] (S : System ι σ ρ α Q) (entry : ρ → Prog ι σ Q α → Prop)
  (sealed : Prog ι σ Q α → Prop)

/-- Process `i` may go on with `p`: that is not a section, or no other process is in the midst of
one. -/
def Config.MayGo (c : Config ι σ ρ α Q) (i : ι) (r : ρ) (p : Prog ι σ Q α) : Prop :=
  entry r p ∨ p.Midst (entry r) → ∀ j, j ≠ i → ¬ c.Midst entry j

/-- **One step of a run in which sections are taken in turn**: no process goes on with its section
while another one is in the midst of its own, and none dies once it is sealed. -/
inductive Orderly : Config ι σ ρ α Q → Config ι σ ρ α Q → Prop
  | arrive {c : Config ι σ ρ α Q} (i : ι) (r : ρ) (hi : c.procs i = .idle) :
      Orderly c ⟨c.db, setProc i (.running r (S.program i r)) c.procs⟩
  | read {c : Config ι σ ρ α Q} {i : ι} {r : ρ} {δ : Type} {f : ι → σ → δ}
      {k : δ → Prog ι σ Q α} (hi : c.procs i = .running r (.read f k))
      (hgo : c.MayGo entry i r (.read f k)) :
      Orderly c ⟨c.db, setProc i (.running r (k (f i c.db))) c.procs⟩
  | query {c : Config ι σ ρ α Q} {i : ι} {r : ρ} {δ : Type} {q : Q δ}
      {k : δ → Prog ι σ Q α} {b : δ} {s : σ} (hi : c.procs i = .running r (.query q k))
      (hgo : c.MayGo entry i r (.query q k)) (hq : S.run q i c.db = some (b, s)) :
      Orderly c ⟨s, setProc i (.running r (k b)) c.procs⟩
  | crash {c : Config ι σ ρ α Q} {i : ι} {r : ρ} {p : Prog ι σ Q α} {s : σ}
      (hi : c.procs i = .running r p) (hlive : ¬ sealed p)
      (hq : S.run S.rollback i c.db = some ((), s)) : Orderly c ⟨s, setProc i .dead c.procs⟩
  | tick {c : Config ι σ ρ α Q} (n : ℕ) : Orderly c ⟨S.tick n c.db, c.procs⟩

variable {S entry sealed} {c d e : Config ι σ ρ α Q} {i : ι} {r : ρ} {p : Prog ι σ Q α}

theorem Orderly.step (h : Orderly S entry sealed c d) : Step S anyQuery c d := by
  cases h with
  | arrive i r hi => exact .arrive i r hi
  | read hi => exact .read hi
  | query hi _ hq => exact .query hi trivial hq
  | crash hi _ hq => exact .crash hi trivial hq
  | tick n => exact .tick n

theorem reachable_of_orderly (h : Relation.ReflTransGen (Orderly S entry sealed) c d) :
    Reachable S anyQuery c d :=
  Relation.ReflTransGen.mono (fun _ _ hstep => hstep.step) _ _ h

/-- A process that is sealed does not die. -/
theorem Orderly.alive (h : Orderly S entry sealed c d) (hi : c.procs i = .running r p)
    (hp : sealed p) : d.procs i ≠ .dead := by
  intro hdead
  have hother : ∀ {j : ι} {q : Proc ι σ ρ α Q}, setProc j q c.procs i = .dead → i = j := by
    intro j q hq
    by_contra hne
    cases hi.symm.trans ((setProc_of_ne hne).symm.trans hq)
  cases h with
  | arrive =>
    obtain rfl := hother hdead
    cases setProc_self.symm.trans hdead
  | read =>
    obtain rfl := hother hdead
    cases setProc_self.symm.trans hdead
  | query =>
    obtain rfl := hother hdead
    cases setProc_self.symm.trans hdead
  | crash hj hlive =>
    obtain rfl := hother hdead
    cases hi.symm.trans hj
    exact hlive hp
  | tick => cases hi.symm.trans hdead

/-- A process that is sealed is left with what is left of its program. -/
theorem Orderly.proc {P : Prog ι σ Q α → Prop} (hP : ClosedIn S P)
    (h : Orderly S entry sealed c d) (hi : c.procs i = .running r p) (hp : P p)
    (hsealed : sealed p) : ∃ p', d.procs i = .running r p' ∧ P p' :=
  (h.step.procIn hP hi hp).resolve_left (h.alive hi hsealed)

/-- A process that is sealed stays so. -/
theorem sealed_of_orderly (hclosed : ClosedIn S sealed)
    (h : Relation.ReflTransGen (Orderly S entry sealed) c d) (hi : c.procs i = .running r p)
    (hp : sealed p) : ∃ p', d.procs i = .running r p' ∧ sealed p' := by
  induction h with
  | refl => exact ⟨p, hi, hp⟩
  | tail _ hstep ih =>
    obtain ⟨p', hi', hp'⟩ := ih
    exact hstep.proc hclosed hi' hp' hp'

/-- **A request that fails has published nothing**, when its program seals itself: none of the
steps of its process changes what is seen. -/
theorem view_eq_of_failed {pub : {β : Type} → Q β → Prop} (view : σ → ν) (hclosed : ClosedIn S sealed)
    (hseals : ∀ i r, (S.program i r).Seals S pub sealed) (hrollback : ¬ pub S.rollback)
    (hview : ∀ {β : Type} (q : Q β) i s b s', ¬ pub q → S.run q i s = some (b, s') →
      view s' = view s) {s₀ : σ}
    (hc : Relation.ReflTransGen (Orderly S entry sealed) (.initial s₀) c)
    (hstep : StepOf S anyQuery i c d) (he : Relation.ReflTransGen (Orderly S entry sealed) d e)
    (hfailed : ∀ r p, e.procs i = .running r p → ¬ sealed p) : view d.db = view c.db := by
  cases hstep with
  | read => rfl
  | @query r δ q k b s hi _ hq =>
    by_cases hpub : pub q
    · have hleft : (Prog.query q k).Seals S pub sealed :=
        keptIn_of_reachable (P := fun _ _ p => p.Seals S pub sealed) (fun _ _ => closedIn_seals)
          hseals (reachable_of_orderly hc) hi
      have hsealed : sealed (k b) := (hleft b ⟨i, _, _, hq⟩).1 hpub
      obtain ⟨p', hp', hsealed'⟩ := sealed_of_orderly hclosed he setProc_self hsealed
      exact absurd hsealed' (hfailed r p' hp')
    · exact hview q i c.db b s hpub hq
  | crash hi _ hq => exact hview _ _ _ _ _ hrollback hq

/-! ### What sections leave behind -/

/-- **A discipline of sections**: each of them is safe when it has the store to itself, from a store
that is quiet, and leaves such a store behind, of which `good` is so. -/
structure Turns (S : System ι σ ρ α Q) (entry : ρ → Prog ι σ Q α → Prop)
    (sealed : Prog ι σ Q α → Prop) (pub : {β : Type} → Q β → Prop) (view : σ → ν)
    (good : ρ → α → ν → Prop) where
  /-- What is so while a process is in the midst of its section, and what others may do then. -/
  contract : ι → Contract S anyQuery
  /-- What is known when a section ends. -/
  post : (i : ι) → ρ → α → Assertion (contract i) i
  /-- What is so between the sections. -/
  quiet : σ → Prop
  closed : ClosedIn S sealed
  /-- Nothing but a section runs queries. -/
  approaches : ∀ i r, (S.program i r).Approaches (entry r)
  seals : ∀ {r e}, entry r e → e.Seals S pub sealed
  safe : ∀ i {r e}, entry r e → ∃ P : Assertion (contract i) i,
    (∀ s, quiet s → (contract i).inv s ∧ P.holds s) ∧ Safe (post i r) e P
  finish : ∀ {i r a s}, (contract i).inv s → (post i r a).holds s → quiet s ∧ good r a (view s)
  sealed_of_good : ∀ {r a v}, good r a v → sealed (.ret a)
  not_pub_rollback : ¬ pub S.rollback
  view_query : ∀ {β : Type} (q : Q β) i s b s', ¬ pub q → S.run q i s = some (b, s') →
    view s' = view s
  view_tick : ∀ n s, view (S.tick n s) = view s
  quiet_tick : ∀ n s, quiet s → quiet (S.tick n s)
  quiet_rollback : ∀ {i s s'}, quiet s → S.run S.rollback i s = some ((), s') → quiet s'
  quiet_of_rollback : ∀ {i s s'}, (contract i).inv s → S.run S.rollback i s = some ((), s') →
    quiet s'

namespace Turns

variable {pub : {β : Type} → Q β → Prop} {view : σ → ν} {good : ρ → α → ν → Prop}
  (T : Turns S entry sealed pub view good) {v v₀ : ν}

/-- What is seen is what was there at first, or what a request that was served has made of it. -/
def Told (good : ρ → α → ν → Prop) (v₀ : ν) (c : Config ι σ ρ α Q) (v : ν) : Prop :=
  v = v₀ ∨ ∃ i r a, c.Served i r a ∧ good r a v

/-- The process is not in the midst of a section. -/
def Outside (entry : ρ → Prog ι σ Q α → Prop) (c : Config ι σ ρ α Q) (j : ι) : Prop :=
  ∀ r p, c.procs j = .running r p → p.Approaches (entry r)

include T in
theorem told_step (h : Orderly S entry sealed c d) (htold : Told good v₀ c v) :
    Told good v₀ d v := by
  rcases htold with h₀ | ⟨i, r, a, hi, hgood⟩
  · exact Or.inl h₀
  · have hret : ClosedIn S fun p : Prog ι σ Q α => p = .ret a := ⟨nofun, nofun⟩
    obtain ⟨p, hp, rfl⟩ := h.proc hret hi rfl (T.sealed_of_good hgood)
    exact Or.inr ⟨i, r, a, hp, hgood⟩

/-- A process is within its section, and has `p` left of it. -/
structure Within (v₀ : ν) (c : Config ι σ ρ α Q) (i : ι) (r : ρ) (p : Prog ι σ Q α) : Prop where
  running : c.procs i = .running r p
  part : ∃ e, entry r e ∧ Relation.ReflTransGen Prog.Next e p
  safe : ∃ P : Assertion (T.contract i) i, P.holds c.db ∧ Safe (T.post i r) p P
  inv : (T.contract i).inv c.db
  seals : p.Seals S pub sealed
  /-- Until it is sealed, nothing is seen of it. -/
  told : sealed p ∨ Told good v₀ c (view c.db)
  others : ∀ j, j ≠ i → Outside entry c j

/-- **Where a run stands**: between the sections, or in the midst of one. -/
inductive Stands (v₀ : ν) (c : Config ι σ ρ α Q) : Prop
  | between (hquiet : T.quiet c.db) (htold : Told good v₀ c (view c.db))
      (hout : ∀ j, Outside entry c j)
  | midst {i : ι} {r : ρ} {p : Prog ι σ Q α} (h : T.Within v₀ c i r p) (hp : p.Midst (entry r))

variable {T}

omit [DecidableEq ι] in
/-- A process that goes through its next step stays within its section, or has come to the end of
it. -/
theorem stands_of_within (h : T.Within v₀ c i r p)
    (hbegun : ∃ e, entry r e ∧ Relation.TransGen Prog.Next e p) : T.Stands v₀ c := by
  by_cases hret : ∃ a, p = .ret a
  · obtain ⟨a, rfl⟩ := hret
    obtain ⟨P, hP, hsafe⟩ := h.safe
    obtain ⟨hquiet, hgood⟩ := T.finish h.inv (hsafe c.db h.inv hP)
    refine .between hquiet (Or.inr ⟨i, r, a, h.running, hgood⟩) fun j => ?_
    rcases eq_or_ne j i with rfl | hne
    · intro r' p' hp'
      rw [h.running] at hp'
      cases hp'
      exact .ret a
    · exact h.others j hne
  · exact .midst h ⟨hbegun, fun a ha => hret ⟨a, ha⟩⟩

theorem outside_setProc {s : σ} {q : Proc ι σ ρ α Q} {j : ι} (hne : j ≠ i)
    (h : Outside entry c j) : Outside entry ⟨s, setProc i q c.procs⟩ j :=
  fun r p hp => h r p ((setProc_of_ne hne).symm.trans hp)

theorem Within.read {δ : Type} {f : ι → σ → δ} {k : δ → Prog ι σ Q α}
    (h : T.Within v₀ c i r (.read f k))
    (hstep : Orderly S entry sealed c ⟨c.db, setProc i (.running r (k (f i c.db))) c.procs⟩) :
    T.Stands v₀ ⟨c.db, setProc i (.running r (k (f i c.db))) c.procs⟩ := by
  obtain ⟨e, he, hnext⟩ := h.part
  obtain ⟨P, hP, M, hM, hk⟩ := h.safe
  have hbegun : Relation.TransGen Prog.Next e (k (f i c.db)) := .tail' hnext (.read f k _)
  refine stands_of_within (i := i) ?_ ⟨e, he, hbegun⟩
  exact {
    running := setProc_self
    part := ⟨e, he, hbegun.to_reflTransGen⟩
    safe := ⟨M _, hM c.db h.inv hP, hk _⟩
    inv := h.inv
    seals := h.seals _
    told := h.told.imp (fun hsealed => T.closed.read hsealed _) (T.told_step hstep)
    others := fun j hne => outside_setProc hne (h.others j hne) }

theorem Within.query {δ : Type} {q : Q δ} {k : δ → Prog ι σ Q α} {b : δ} {s : σ}
    (h : T.Within v₀ c i r (.query q k)) (hq : S.run q i c.db = some (b, s))
    (hstep : Orderly S entry sealed c ⟨s, setProc i (.running r (k b)) c.procs⟩) :
    T.Stands v₀ ⟨s, setProc i (.running r (k b)) c.procs⟩ := by
  obtain ⟨e, he, hnext⟩ := h.part
  obtain ⟨P, hP, M, hM, hk⟩ := h.safe
  obtain ⟨hinv, -, hb⟩ := hM c.db b s h.inv hP trivial hq
  have hbegun : Relation.TransGen Prog.Next e (k b) := .tail' hnext (.query q k b)
  refine stands_of_within (i := i) ?_ ⟨e, he, hbegun⟩
  exact {
    running := setProc_self
    part := ⟨e, he, hbegun.to_reflTransGen⟩
    safe := ⟨M b, hb, hk b⟩
    inv := hinv
    seals := (h.seals b ⟨i, _, _, hq⟩).2
    told := by
      by_cases hpub : pub q
      · exact Or.inl ((h.seals b ⟨i, _, _, hq⟩).1 hpub)
      · refine h.told.imp (fun hsealed => T.closed.query hsealed ⟨i, _, _, hq⟩) fun htold => ?_
        rw [T.view_query q i c.db b s hpub hq]
        exact T.told_step hstep htold
    others := fun j hne => outside_setProc hne (h.others j hne) }

omit [DecidableEq ι] in
/-- A process that comes to a section, between the sections, is within it. -/
theorem within_of_entry (hquiet : T.quiet c.db) (htold : Told good v₀ c (view c.db))
    (hout : ∀ j, Outside entry c j) (hi : c.procs i = .running r p) (hp : entry r p) :
    T.Within v₀ c i r p := by
  obtain ⟨P, hP, hsafe⟩ := T.safe i hp
  exact {
    running := hi
    part := ⟨p, hp, .refl⟩
    safe := ⟨P, (hP c.db hquiet).2, hsafe⟩
    inv := (hP c.db hquiet).1
    seals := T.seals hp
    told := Or.inr htold
    others := fun j _ => hout j }

/-- What another process does that is not in its section leaves a process within its own. -/
theorem Within.of_other {j : ι} {q : Proc ι σ ρ α Q} {s : σ} (h : T.Within v₀ c i r p)
    (hne : j ≠ i) (hinv : (T.contract i).inv s)
    (hP : ∀ P : Assertion (T.contract i) i, P.holds c.db → P.holds s)
    (hview : view s = view c.db)
    (hstep : Orderly S entry sealed c ⟨s, setProc j q c.procs⟩)
    (hq : ∀ r p, q = .running r p → p.Approaches (entry r)) :
    T.Within v₀ ⟨s, setProc j q c.procs⟩ i r p where
  running := (setProc_of_ne hne.symm).trans h.running
  part := h.part
  safe := h.safe.imp fun P hsafe => ⟨hP P hsafe.1, hsafe.2⟩
  inv := hinv
  seals := h.seals
  told := h.told.imp_right fun htold => by
    rw [hview]
    exact T.told_step hstep htold
  others := by
    intro l hl r' p' hp'
    rcases setProc_running hp' with ⟨rfl, he⟩ | ⟨hlj, hold⟩
    · exact hq r' p' he
    · exact h.others l hl r' p' hold

/-- **One step**, of a run in which sections are taken in turn. -/
theorem Stands.step (h : T.Stands v₀ c) (hstep : Orderly S entry sealed c d) : T.Stands v₀ d := by
  have harrive : ∀ {j : ι} {r' : ρ} {r p}, Proc.running r' (S.program j r') = .running r p →
      p.Approaches (entry r) := by
    rintro j r' r p he
    cases he
    exact T.approaches j r'
  cases h with
  | between hquiet htold hout =>
    have hdone : ∀ {j q s}, Orderly S entry sealed c ⟨s, setProc j q c.procs⟩ → T.quiet s →
        view s = view c.db → (∀ r p, q = .running r p → p.Approaches (entry r)) →
        T.Stands v₀ ⟨s, setProc j q c.procs⟩ := by
      intro j q s hstep hs hview hq
      refine .between hs (hview ▸ T.told_step hstep htold) fun l r p hp => ?_
      rcases setProc_running hp with ⟨rfl, he⟩ | ⟨-, hold⟩
      · exact hq r p he
      · exact hout l r p hold
    cases hstep with
    | arrive j r hj => exact hdone (.arrive j r hj) hquiet rfl fun _ _ => harrive
    | @read j r δ f k hj hgo =>
      -- a read is one of a section, or does not matter
      cases hout j _ _ hj with
      | entry he => exact (within_of_entry hquiet htold hout hj he).read (.read hj hgo)
      | read hk =>
        refine hdone (.read hj hgo) hquiet rfl fun r p he => ?_
        cases he
        exact hk _
    | @query j r δ q k b s hj hgo hq =>
      cases hout j _ _ hj with
      | entry he => exact (within_of_entry hquiet htold hout hj he).query hq (.query hj hgo hq)
    | @crash j r p s hj hlive hq =>
      exact hdone (.crash hj hlive hq) (T.quiet_rollback hquiet hq)
        (T.view_query _ _ _ _ _ T.not_pub_rollback hq) fun _ _ he => nomatch he
    | tick n =>
      refine .between (T.quiet_tick n _ hquiet) ?_ hout
      show Told good v₀ _ (view (S.tick n c.db))
      rw [T.view_tick]
      exact T.told_step (.tick n) htold
  | @midst i r p h hp =>
    have hmidst : c.Midst entry i := ⟨r, p, h.running, hp⟩
    cases hstep with
    | arrive j r' hj =>
      have hne : j ≠ i := by
        rintro rfl
        cases hj.symm.trans h.running
      exact .midst (h.of_other hne h.inv (fun _ hP => hP) rfl (.arrive j r' hj) fun _ _ => harrive) hp
    | @read j r' δ f k hj hgo =>
      rcases eq_or_ne j i with rfl | hne
      · cases hj.symm.trans h.running
        exact h.read (.read hj hgo)
      · cases h.others j hne _ _ hj with
        | entry he => exact absurd hmidst (hgo (Or.inl he) i hne.symm)
        | read hk =>
          refine .midst (h.of_other hne h.inv (fun _ hP => hP) rfl (.read hj hgo) ?_) hp
          rintro r'' p'' he
          cases he
          exact hk _
    | @query j r' δ q k b s hj hgo hq =>
      rcases eq_or_ne j i with rfl | hne
      · cases hj.symm.trans h.running
        exact h.query hq (.query hj hgo hq)
      · cases h.others j hne _ _ hj with
        | entry he => exact absurd hmidst (hgo (Or.inl he) i hne.symm)
    | @crash j r' p' s hj hlive hq =>
      have hview : view s = view c.db := T.view_query _ _ _ _ _ T.not_pub_rollback hq
      rcases eq_or_ne j i with rfl | hne
      · cases hj.symm.trans h.running
        refine .between (T.quiet_of_rollback h.inv hq) ?_ fun l r'' p'' hp'' => ?_
        · exact hview ▸ T.told_step (.crash hj hlive hq) (h.told.resolve_left hlive)
        · rcases setProc_running hp'' with ⟨rfl, he⟩ | ⟨hlj, hold⟩
          · cases he
          · exact h.others l hlj _ _ hold
      · obtain ⟨hinv, hguar⟩ := (T.contract i).rollback h.inv trivial hq
        exact .midst (h.of_other hne hinv (fun P => P.stable hne h.inv hinv hguar) hview
          (.crash hj hlive hq) fun _ _ he => nomatch he) hp
    | tick n =>
      exact .midst {
        running := h.running
        part := h.part
        safe := h.safe.imp fun P hP => ⟨P.tick n h.inv hP.1, hP.2⟩
        inv := (T.contract i).inv_tick n h.inv
        seals := h.seals
        told := h.told.imp_right fun htold => by
          show Told good v₀ _ (view (S.tick n c.db))
          rw [T.view_tick]
          exact T.told_step (.tick n) htold
        others := h.others } hp

theorem stands_of_orderly {s₀ : σ} (hs₀ : T.quiet s₀)
    (h : Relation.ReflTransGen (Orderly S entry sealed) (.initial s₀) c) :
    T.Stands (view s₀) c := by
  induction h with
  | refl => exact .between hs₀ (Or.inl rfl) fun _ _ _ hp => nomatch hp
  | tail _ hstep ih => exact ih.step hstep

/-- **When all requests have ended**, what is seen is what was there at first, or what one request
that was served has made of it. -/
theorem told_of_ended {s₀ : σ} (hs₀ : T.quiet s₀)
    (h : Relation.ReflTransGen (Orderly S entry sealed) (.initial s₀) c)
    (hended : ∀ i r p, c.procs i = .running r p → ∃ a, p = .ret a) :
    Told good (view s₀) c (view c.db) := by
  cases stands_of_orderly hs₀ h with
  | between _ htold => exact htold
  | @midst i r p hin hp =>
    obtain ⟨a, ha⟩ := hended i r p hin.running
    exact absurd ha (hp.2 a)

end Turns

/-! ### Runs of one process -/

/-- A process takes its turn when it is the only one. -/
theorem orderly_of_exec1 {es : List (Event ι ρ)} (hes : ∀ ev ∈ es, ev = .run i)
    (h : exec S es c = some d) (halone : ∀ j, j ≠ i → c.procs j = .idle) :
    Relation.ReflTransGen (Orderly S entry sealed) c d ∧ ∀ j, j ≠ i → d.procs j = .idle := by
  induction es generalizing c with
  | nil =>
    cases h
    exact ⟨.refl, halone⟩
  | cons ev es ih =>
    obtain ⟨c', hc', hes'⟩ := Option.bind_eq_some_iff.mp h
    obtain rfl := hes ev List.mem_cons_self
    have hgo : ∀ r p, c.MayGo entry i r p := by
      rintro r p - j hne ⟨r', p', hj, -⟩
      cases (halone j hne).symm.trans hj
    have hstep : Orderly S entry sealed c c' ∧ ∀ j, j ≠ i → c'.procs j = .idle := by
      simp only [exec1] at hc'
      split at hc'
      · rename_i hi
        cases hc'
        exact ⟨.read hi (hgo _ _), fun j hne => (setProc_of_ne hne).trans (halone j hne)⟩
      · rename_i hi
        split at hc'
        · rename_i hq
          cases hc'
          exact ⟨.query hi (hgo _ _) hq, fun j hne => (setProc_of_ne hne).trans (halone j hne)⟩
        · cases hc'
      · cases hc'
    obtain ⟨hrest, hidle⟩ := ih (fun ev hev => hes ev (List.mem_cons_of_mem _ hev)) hes' hstep.2
    exact ⟨.head hstep.1 hrest, hidle⟩

end Orderly

end ReadCommitted
