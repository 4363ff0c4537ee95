import Marketplace.ReadCommitted.Faults
import Marketplace.ReadCommitted.Statements

/-!
# Where the data of a run come from

A program writes what it has made of what it has looked at, and of how its queries were answered. To
say that of the data that are stored, whoever stored them and however many statements later, one
needs two things: that the programs write nothing else (`ReadCommitted.Prog.Informed`), and that what
they are told is so in states of the run, one after the other (`ReadCommitted.told`). What every
query then preserves, because it is made of such data, is so at the end
(`ReadCommitted.invariant_informed`).
-/

namespace ReadCommitted

variable {ι σ σ' ρ α β : Type} {Q Q' : Type → Type 1}

/-- **What a program may be told**: at which states it looks, after the one that it has looked at last,
and how its queries are answered. -/
structure Told (σ : Type) (Q : Type → Type 1) where
  look : σ → σ → Prop
  answer : {β : Type} → Q β → β → Prop

/-- What a program over a part of the store is told of it. -/
def Told.part (J : Told σ' Q') (get : σ' → σ) (e : {β : Type} → Q β → Q' β) : Told σ Q where
  look t s := ∃ t' s', get t' = t ∧ get s' = s ∧ J.look t' s'
  answer q b := J.answer (e q) b

/-! ### Programs -/

namespace Prog

variable {i : ι} {J : Told σ Q} {φ : {β : Type} → Q β → Prop} {ψ ψ' : α → Prop}

/-- **A program whose queries satisfy `φ`, and whose result satisfies `ψ`**, as long as it is told what
`J` says; it has looked at `t` last. -/
def InformedFrom (i : ι) (J : Told σ Q) (φ : {β : Type} → Q β → Prop) (ψ : α → Prop) :
    σ → Prog ι σ Q α → Prop
  | _, ret a => ψ a
  | t, read f k => ∀ s, J.look t s → (k (f i s)).InformedFrom i J φ ψ s
  | t, query q k => φ q ∧ ∀ b, J.answer q b → (k b).InformedFrom i J φ ψ t

/-- Such a program, whatever it has looked at before. -/
def InformedTo (i : ι) (J : Told σ Q) (φ : {β : Type} → Q β → Prop) (ψ : α → Prop)
    (p : Prog ι σ Q α) : Prop :=
  ∀ t, p.InformedFrom i J φ ψ t

/-- A program of whose result nothing is said. -/
abbrev Informed (i : ι) (J : Told σ Q) (φ : {β : Type} → Q β → Prop) (p : Prog ι σ Q α) : Prop :=
  p.InformedTo i J φ fun _ => True

theorem informed_of_each {p : Prog ι σ Q α} (h : p.Each φ) : p.Informed i J φ := by
  induction p with
  | ret a => exact fun _ => trivial
  | read f k ih => exact fun _ s _ => ih _ (h _) s
  | query q k ih => exact fun t => ⟨h.1, fun b _ => ih b (h.2 b) t⟩

theorem InformedTo.bind {χ : β → Prop} {p : Prog ι σ Q β} {k : β → Prog ι σ Q α}
    (hp : p.InformedTo i J φ χ) (hk : ∀ b, χ b → (k b).InformedTo i J φ ψ) :
    (p >>= k).InformedTo i J φ ψ := by
  intro t
  have ht := hp t
  clear hp
  induction p generalizing t with
  | ret a => exact hk a ht t
  | read f g ih => exact fun s hs => ih _ s (ht s hs)
  | query q g ih => exact ⟨ht.1, fun b hb => ih b t (ht.2 b hb)⟩

theorem Informed.bind {p : Prog ι σ Q β} {k : β → Prog ι σ Q α} (hp : p.Informed i J φ)
    (hk : ∀ b, (k b).InformedTo i J φ ψ) : (p >>= k).InformedTo i J φ ψ :=
  InformedTo.bind hp fun b _ => hk b

theorem InformedTo.mono {p : Prog ι σ Q α} (h : p.InformedTo i J φ ψ) (hψ : ∀ a, ψ a → ψ' a) :
    p.InformedTo i J φ ψ' := by
  intro t
  have ht := h t
  clear h
  induction p generalizing t with
  | ret a => exact hψ a ht
  | read f k ih => exact fun s hs => ih _ s (ht s hs)
  | query q k ih => exact ⟨ht.1, fun b hb => ih b t (ht.2 b hb)⟩

/-- A program that may fail early writes nothing else. -/
theorem Informed.failAt {p : Prog ι σ Q α} {a : α} (h : p.Informed i J φ) (fault : Option ℕ) :
    (p.failAt a fault).Informed i J φ := by
  rcases fault with _ | n
  · rwa [failAt_none]
  intro t
  have ht := h t
  clear h
  induction p generalizing n t with
  | ret b => cases n <;> trivial
  | read f k ih =>
    cases n with
    | zero => trivial
    | succ n => exact fun s hs => ih _ n s (ht s hs)
  | query q k ih =>
    cases n with
    | zero => trivial
    | succ n => exact ⟨ht.1, fun b hb => ih b n t (ht.2 b hb)⟩

/-- A program over a larger store is told of its own part of it. -/
theorem InformedTo.embed {get : σ' → σ} {e : {β : Type} → Q β → Q' β} {J' : Told σ' Q'}
    {φ' : {β : Type} → Q' β → Prop} {p : Prog ι σ Q α} (h : p.InformedTo i (J'.part get e) φ ψ)
    (hφ : ∀ {β : Type} (q : Q β), φ q → φ' (e q)) : (p.embed get e).InformedTo i J' φ' ψ := by
  intro t
  have ht := h (get t)
  clear h
  induction p generalizing t with
  | ret a => exact ht
  | read f k ih => exact fun s hs => ih _ s (ht _ ⟨t, s, rfl, rfl, hs⟩)
  | query q k ih => exact ⟨hφ q ht.1, fun b hb => ih b t (ht.2 b hb)⟩

end Prog

namespace Action

variable {ε : Type} {i : ι} {J : Told σ Q} {φ : {β : Type} → Q β → Prop}
  {ψ : Except ε α → Prop} {χ : β → Prop}

/-- What is returned, if nothing is thrown. -/
def OnOk (χ : β → Prop) : Except ε β → Prop
  | .ok b => χ b
  | .error _ => True

/-- A program that may throw, and what is made of its result. -/
theorem informedTo_andThen {p : Action ι σ Q ε β} {k : β → Action ι σ Q ε α}
    (he : ∀ e, ψ (.error e)) (hp : p.run.InformedTo i J φ (OnOk χ))
    (hk : ∀ b, χ b → (k b).run.InformedTo i J φ ψ) : (p >>= k).run.InformedTo i J φ ψ := by
  refine Prog.InformedTo.bind hp fun a ha => ?_
  cases a with
  | ok b => exact hk b ha
  | error e => exact fun _ => he e

/-- A program that may throw, and of whose result nothing is said. -/
theorem informed_onOk {p : Action ι σ Q ε β} (h : p.run.Informed i J φ) :
    p.run.InformedTo i J φ (OnOk fun _ => True) := by
  refine h.mono fun a _ => ?_
  cases a <;> trivial

/-- A program that may throw, and what comes after it. -/
theorem informed_andThen {p : Action ι σ Q ε β} {k : β → Action ι σ Q ε α}
    (hp : p.run.Informed i J φ) (hk : ∀ b, (k b).run.Informed i J φ) :
    (p >>= k).run.Informed i J φ :=
  informedTo_andThen (fun _ => trivial) (informed_onOk hp) fun b _ => hk b

/-- **What is made of a look** is made of a state that is looked at. -/
theorem informed_look {f : ι → σ → β} {k : β → Action ι σ Q ε α}
    (h : ∀ t s, J.look t s → (k (f i s)).run.InformedTo i J φ ψ) :
    (look f >>= k).run.InformedTo i J φ ψ :=
  fun t s hs => h t s hs s

/-- **What is made of an answer** is made of one that is given. -/
theorem informed_query {q : Q β} {k : β → Action ι σ Q ε α} (hq : φ q)
    (hk : ∀ b, J.answer q b → (k b).run.InformedTo i J φ ψ) :
    (query q >>= k).run.InformedTo i J φ ψ :=
  fun t => ⟨hq, fun b hb => hk b hb t⟩

/-- A transaction, whose ends say nothing. -/
theorem informed_transaction {commit rollback : Q Unit} {body : Action ι σ Q ε α} (hc : φ commit)
    (hr : φ rollback) (hbody : body.run.InformedTo i J φ ψ) :
    (transaction commit rollback body).run.InformedTo i J φ ψ := by
  refine Prog.InformedTo.bind hbody fun a ha => ?_
  cases a with
  | ok a => exact fun _ => ⟨hc, fun _ _ => ha⟩
  | error e => exact fun _ => ⟨hr, fun _ _ => ha⟩

end Action

/-! ### Runs -/

variable [DecidableEq ι] {S : System ι σ ρ α Q} {C : Proviso ι σ Q} {c₀ c : Config ι σ ρ α Q}

/-- A state that the run from `c₀` to `c` passes through. -/
def Passed (S : System ι σ ρ α Q) (C : Proviso ι σ Q) (c₀ c : Config ι σ ρ α Q) (s : σ) : Prop :=
  ∃ d, Reachable S C c₀ d ∧ Reachable S C d c ∧ d.db = s

/-- **The run from `c₀` to `c` passes through `t`, and then through `s`.** -/
def Onward (S : System ι σ ρ α Q) (C : Proviso ι σ Q) (c₀ c : Config ι σ ρ α Q) (t s : σ) : Prop :=
  ∃ d e, Reachable S C c₀ d ∧ Reachable S C d e ∧ Reachable S C e c ∧ d.db = t ∧ e.db = s

/-- Process `i` serves request `r` at some time of the run from `c₀` to `c`. -/
def Serves (S : System ι σ ρ α Q) (C : Proviso ι σ Q) (c₀ c : Config ι σ ρ α Q) (i : ι) (r : ρ) :
    Prop :=
  ∃ d p, Reachable S C c₀ d ∧ Reachable S C d c ∧ d.procs i = .running r p

/-- **What process `i` is told in the run from `c₀` to `c`**, where `I` holds all along. -/
def told (S : System ι σ ρ α Q) (C : Proviso ι σ Q) (c₀ c : Config ι σ ρ α Q) (I : σ → Prop)
    (i : ι) : Told σ Q where
  look t s := I s ∧ Onward S C c₀ c t s
  answer q b := ∃ s s', I s ∧ Passed S C c₀ c s ∧ S.run q i s = some (b, s')

theorem Onward.passed {t s : σ} (h : Onward S C c₀ c t s) : Passed S C c₀ c s := by
  obtain ⟨d, e, hd, hde, he, -, hs⟩ := h
  exact ⟨e, hd.trans hde, he, hs⟩

/-- **An invariant of what is written after looking**: every request that is served writes what
satisfies `φ`, provided that it is told what is so in states of the run where the invariant holds. -/
theorem invariant_informed {s₀ : σ} {I : σ → Prop} {φ : {β : Type} → Q β → Prop}
    (hprog : ∀ i r, Serves S C (.initial s₀) c i r →
      (S.program i r).Informed i (told S C (.initial s₀) c I i) φ)
    (hrollback : φ S.rollback)
    (hrun : ∀ {β : Type} (q : Q β) i s b s', I s → φ q → S.run q i s = some (b, s') → I s')
    (htick : ∀ s n, I s → I (S.tick n s)) (h₀ : I s₀) (h : Reachable S C (.initial s₀) c) :
    I c.db := by
  suffices hall : ∀ d, Reachable S C (.initial s₀) d → Reachable S C d c →
      I d.db ∧ ∀ i r p, d.procs i = .running r p → ∃ d', Reachable S C (.initial s₀) d' ∧
        Reachable S C d' d ∧
        p.InformedFrom i (told S C (.initial s₀) c I i) φ (fun _ => True) d'.db from
    (hall c h .refl).1
  intro d hd
  induction hd with
  | refl => exact fun _ => ⟨h₀, fun i r p hi => absurd hi Proc.running_ne_idle.symm⟩
  | @tail d e hd hstep ih =>
    intro hrest
    have hdc : Reachable S C d c := .head hstep hrest
    obtain ⟨hI, hprocs⟩ := ih hdc
    -- a process that does not move has looked at nothing new
    have hold : ∀ i r p, d.procs i = .running r p → ∃ d', Reachable S C (.initial s₀) d' ∧
        Reachable S C d' e ∧
        p.InformedFrom i (told S C (.initial s₀) c I i) φ (fun _ => True) d'.db := by
      intro i r p hi
      obtain ⟨d', hd', hseen, hp⟩ := hprocs i r p hi
      exact ⟨d', hd', hseen.tail hstep, hp⟩
    have hstep' := hstep
    cases hstep with
    | arrive j r' hj =>
      refine ⟨hI, fun i r p hi => ?_⟩
      rcases setProc_running hi with ⟨rfl, hr⟩ | ⟨-, h⟩
      · cases hr
        exact ⟨d, hd, .single hstep', hprog _ _ ⟨_, _, hd.tail hstep', hrest, setProc_self⟩ _⟩
      · exact hold i r p h
    | read hj =>
      refine ⟨hI, fun i r p hi => ?_⟩
      rcases setProc_running hi with ⟨rfl, hr⟩ | ⟨-, h⟩
      · cases hr
        obtain ⟨d', hd', hseen, hp⟩ := hprocs _ _ _ hj
        exact ⟨d, hd, .single hstep', hp _ ⟨hI, d', d, hd', hseen, hdc, rfl, rfl⟩⟩
      · exact hold i r p h
    | query hj hC hq =>
      obtain ⟨d', hd', hseen, hp⟩ := hprocs _ _ _ hj
      refine ⟨hrun _ _ _ _ _ hI hp.1 hq, fun i r p hi => ?_⟩
      rcases setProc_running hi with ⟨rfl, hr⟩ | ⟨-, h⟩
      · cases hr
        exact ⟨d', hd', hseen.tail hstep', hp.2 _ ⟨d.db, _, hI, ⟨d, hd, hdc, rfl⟩, hq⟩⟩
      · exact hold i r p h
    | crash hj hC hq =>
      refine ⟨hrun _ _ _ _ _ hI hrollback hq, fun i r p hi => ?_⟩
      rcases setProc_running hi with ⟨-, hr⟩ | ⟨-, h⟩
      · cases hr
      · exact hold i r p h
    | tick n => exact ⟨htick _ n hI, hold⟩

end ReadCommitted
