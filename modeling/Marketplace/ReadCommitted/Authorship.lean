import Marketplace.ReadCommitted.Faults
import Marketplace.ReadCommitted.Lasting
import Marketplace.ReadCommitted.Statements

/-!
# Who may write what

A row is published by whoever commits, and what is published then was put there by statements that
came before, when other rows looked otherwise. To say who has changed what a row says, one has to
follow the version that a transaction carries: as long as the statements of a process leave a
reading `f` of the row as it is, the version that it holds reads as the published one
(`ReadCommitted.Slot.Faithful`), and publishing it changes nothing. What a step changes is therefore
changed by a process whose request had the right to, and had it when the step was taken
(`ReadCommitted.Authority.changed`).

A right is often found out by looking before writing. That is enough when the right is never lost
(`ReadCommitted.Prog.Guarded`): wherever the process is interrupted, what it has left to run either
needs no right, or is run by a process that has it (`ReadCommitted.guarded_of_reachable`).
-/

namespace ReadCommitted

variable {ι σ ρ α β γ R : Type} {Q : Type → Type 1}

/-! ### One row -/

namespace Slot

variable {f : Option R → γ} {i j : ι} {x y : Slot ι R}

/-- The version that process `i` holds, if it holds one, reads as the published one. -/
def Faithful (f : Option R → γ) (i : ι) (x : Slot ι R) : Prop :=
  ∀ v, x.lock = some (i, v) → f v = f x.committed

theorem faithful_of_unlocked (h : x.lock = none) : x.Faithful f i := by
  intro v hv
  rw [h] at hv
  cases hv

variable [DecidableEq ι]

/-- A faithful process sees the row as it is published. -/
theorem Faithful.visible (h : x.Faithful f i) : f (x.visible i) = f x.committed := by
  rcases visible_cases i x with hlock | hsame
  · exact h _ hlock
  · rw [hsame]

theorem Faithful.of_visible (h : f (x.visible i) = f x.committed) : x.Faithful f i := by
  intro v hv
  rw [← visible_of_held hv, h]

/-- **A faithful process that leaves the row reading as it did** publishes nothing new, and stays
faithful. -/
theorem Faithful.move (h : x.Faithful f i) (hm : Move i x y)
    (hf : f (y.visible i) = f (x.visible i)) : f y.committed = f x.committed ∧ y.Faithful f i := by
  have hx := h.visible
  -- either nothing is published, or the row is left unlocked, and seen as it is published
  rcases hm.committed_cases with hsame | ⟨-, hfree⟩
  · exact ⟨by rw [hsame], Faithful.of_visible (by rw [hf, hx, hsame])⟩
  · rw [visible_of_unlocked hfree] at hf
    exact ⟨hf.trans hx, faithful_of_unlocked hfree⟩

/-- Rolling back leaves the row reading as it is published. -/
theorem visible_rollback : (x.rollback i).visible i = x.committed := by
  rcases visible_cases i (x.rollback i) with hlock | hsame
  · exact absurd rfl (lock_of_rollback hlock).1
  · rw [hsame, rollback_committed]

/-- What others do leaves a process as faithful as it was. -/
theorem Faithful.of_other (h : x.Faithful f i) (hm : Move j x y) (hne : i ≠ j) :
    y.Faithful f i := by
  intro v hv
  have hx := hm.lock_of_other hv hne
  rw [hm.eq_of_held hx hne]
  exact h v hx

end Slot

/-- **What a query that leaves the reading of one row as it is does to that row**: it reads as it
did to the process, or the process has rolled back. -/
theorem Table.Effect.reads {K : Type} [DecidableEq K] [DecidableEq ι]
    {A : K → Option R → R → Prop} {i : ι} {t t' : Table ι K R} (h : t.Effect A i t') {k : K}
    {f : Option R → γ} (hA : ∀ o r, A k o r → f (some r) = f o) :
    f ((t'.slot k).visible i) = f ((t.slot k).visible i) ∨ t'.slot k = (t.slot k).rollback i := by
  cases h with
  | keep => exact Or.inl rfl
  | @put l r m hfree hr =>
    rcases eq_or_ne k l with rfl | hne
    · rw [Table.slot_put_self, Slot.visible_put]
      exact Or.inl (hA _ r hr)
    · rw [Table.slot_put_of_ne hne]
      exact Or.inl rfl
  | commit => exact Or.inl (congrArg f (Table.row_commit (t := t)))
  | rollback => exact Or.inr rfl

/-! ### The steps of a request -/

variable {S : System ι σ ρ α Q} {C : Proviso ι σ Q}

/-- **The step from `c` to `d` is a query of process `i`**, which serves request `r`. -/
def Config.Issues [DecidableEq ι] (S : System ι σ ρ α Q) (c : Config ι σ ρ α Q) (i : ι) (r : ρ)
    (d : Config ι σ ρ α Q) : Prop :=
  ∃ (δ : Type) (q : Q δ) (k : δ → Prog ι σ Q α) (b : δ), c.procs i = .running r (.query q k) ∧
    S.run q i c.db = some (b, d.db) ∧ d.procs = setProc i (.running r (k b)) c.procs

/-- A schedule that can be run, and in which every request that arrives satisfies `P`, is a run
whose queries serve such requests. -/
theorem run_of_exec [DecidableEq ι] (P : ρ → Prop) {es : List (Event ι ρ)}
    {c d : Config ι σ ρ α Q} (harrive : ∀ i r, Event.arrive i r ∈ es → P r)
    (hc : ∀ i r p, c.procs i = .running r p → P r) (h : exec S es c = some d) :
    Relation.ReflTransGen (fun c d => Step S anyQuery c d ∧ ∀ i r, c.Issues S i r d → P r) c d := by
  induction es generalizing c with
  | nil =>
    cases h
    exact .refl
  | cons e es ih =>
    obtain ⟨c', h1, h2⟩ := Option.bind_eq_some_iff.mp h
    have hstep := step_of_exec1 h1
    have hserves : ∀ i r, c.Issues S i r c' → P r := by
      rintro i r ⟨δ, q, k, b, hi, -⟩
      exact hc i r _ hi
    refine .head ⟨hstep, hserves⟩
      (ih (fun i r hr => harrive i r (List.mem_cons_of_mem _ hr)) (fun i r p hi => ?_) h2)
    -- who runs now has arrived just now, or ran before
    cases e with
    | arrive j r' =>
      rw [exec1] at h1
      split at h1
      · cases h1
        rcases setProc_running hi with ⟨-, hr⟩ | ⟨-, hold⟩
        · cases hr
          exact harrive _ _ List.mem_cons_self
        · exact hc i r p hold
      · cases h1
    | run j =>
      simp only [exec1] at h1
      split at h1
      · rename_i hj
        cases h1
        rcases setProc_running hi with ⟨-, hr⟩ | ⟨-, hold⟩
        · cases hr
          exact hc _ _ _ hj
        · exact hc i r p hold
      · rename_i hj
        split at h1
        · cases h1
          rcases setProc_running hi with ⟨-, hr⟩ | ⟨-, hold⟩
          · cases hr
            exact hc _ _ _ hj
          · exact hc i r p hold
        · cases h1
      · cases h1
    | crash j =>
      simp only [exec1] at h1
      split at h1
      · split at h1
        · cases h1
          rcases setProc_running hi with ⟨-, hr⟩ | ⟨-, hold⟩
          · cases hr
          · exact hc i r p hold
        · cases h1
      · cases h1
    | tick n =>
      cases h1
      exact hc i r p hi

/-! ### Authority over a row -/

/-- **Authority over a reading of one row**, in the runs from `s₀`: what a query does to the row is
a move of its process, and the row then reads as before unless the request that the query serves
has the right to write it. -/
structure Authority [DecidableEq ι] (S : System ι σ ρ α Q) (C : Proviso ι σ Q) (s₀ : σ)
    (slot : σ → Slot ι R) (f : Option R → γ) (may : ρ → σ → Prop) : Prop where
  /-- Nobody holds the row to begin with. -/
  unlocked : (slot s₀).lock = none
  /-- A query is a move. -/
  move : ∀ {β : Type} (q : Q β) i s b s', S.run q i s = some (b, s') → Slot.Move i (slot s) (slot s')
  /-- Rolling back drops what the process holds. -/
  rollback : ∀ i s s', S.run S.rollback i s = some ((), s') → slot s' = (slot s).rollback i
  /-- Time does nothing to the row. -/
  tick : ∀ s n, slot (S.tick n s) = slot s
  /-- A right is never lost. -/
  lasts : ∀ {c d : Config ι σ ρ α Q} {r : ρ}, Reachable S C (.initial s₀) c → Step S C c d →
    may r c.db → may r d.db
  /-- Who has no right leaves the row reading as it did. -/
  reads : ∀ {c : Config ι σ ρ α Q} {i : ι} {r : ρ} {δ : Type} {q : Q δ} {k : δ → Prog ι σ Q α}
    {b : δ} {s : σ}, Reachable S C (.initial s₀) c → c.procs i = .running r (.query q k) →
    S.run q i c.db = some (b, s) →
    f ((slot s).visible i) = f ((slot c.db).visible i) ∨
      slot s = (slot c.db).rollback i ∨ may r c.db

namespace Authority

variable [DecidableEq ι] {s₀ : σ} {slot : σ → Slot ι R} {f : Option R → γ} {may : ρ → σ → Prop}
  {c d : Config ι σ ρ α Q}

/-- Whoever holds a version that reads otherwise than the published one has the right to. -/
def Rightful (slot : σ → Slot ι R) (f : Option R → γ) (may : ρ → σ → Prop)
    (c : Config ι σ ρ α Q) : Prop :=
  ∀ i, (slot c.db).Faithful f i ∨ ∃ r p, c.procs i = .running r p ∧ may r c.db

/-- Nothing that is not a query of a process changes what the row reads. -/
theorem step_cases (h : Authority S C s₀ slot f may) (hstep : Step S C c d) :
    (slot d.db = slot c.db ∧ ∀ i r p, c.procs i = .running r p → ∃ p', d.procs i = .running r p') ∨
      (∃ i, slot d.db = (slot c.db).rollback i ∧ d.procs = setProc i .dead c.procs) ∨
      ∃ i r, c.Issues S i r d := by
  cases hstep with
  | arrive j r hj =>
    refine Or.inl ⟨rfl, fun i r' p hi => ⟨p, ?_⟩⟩
    have hne : i ≠ j := by
      rintro rfl
      rw [hi] at hj
      cases hj
    exact (setProc_of_ne hne).trans hi
  | @read j r δ g k hj =>
    refine Or.inl ⟨rfl, fun i r' p hi => ?_⟩
    rcases eq_or_ne i j with rfl | hne
    · rw [hi] at hj
      cases hj
      exact ⟨_, setProc_self⟩
    · exact ⟨p, (setProc_of_ne hne).trans hi⟩
  | query hj hC hq => exact Or.inr (Or.inr ⟨_, _, _, _, _, _, hj, hq, rfl⟩)
  | crash hj hC hq => exact Or.inr (Or.inl ⟨_, h.rollback _ _ _ hq, rfl⟩)
  | tick n => exact Or.inl ⟨h.tick _ n, fun i r p hi => ⟨p, hi⟩⟩

/-- A query of a process leaves the others where they are, and as faithful as they were. -/
theorem rightful_query (h : Authority S C s₀ slot f may) (hc : Reachable S C (.initial s₀) c)
    (hstep : Step S C c d) (hr : Rightful slot f may c) {i : ι} {r : ρ} (hi : c.Issues S i r d) :
    Rightful slot f may d ∧ f (slot d.db).committed = f (slot c.db).committed ∨
      Rightful slot f may d ∧ may r c.db := by
  obtain ⟨δ, q, k, b, hproc, hrun, hprocs⟩ := hi
  have hm := h.move q i c.db b d.db hrun
  have hothers : ∀ j, j ≠ i → (slot d.db).Faithful f j ∨
      ∃ r p, d.procs j = .running r p ∧ may r d.db := by
    intro j hne
    rcases hr j with hj | ⟨r', p', hp, hmay⟩
    · exact Or.inl (hj.of_other hm hne)
    · refine Or.inr ⟨r', p', ?_, h.lasts hc hstep hmay⟩
      rw [hprocs, setProc_of_ne hne, hp]
  have hright : may r c.db → Rightful slot f may d := by
    intro hmay j
    rcases eq_or_ne j i with rfl | hne
    · exact Or.inr ⟨r, k b, by rw [hprocs, setProc_self], h.lasts hc hstep hmay⟩
    · exact hothers j hne
  -- a process that is not faithful has the right already
  rcases hr i with hfaithful | ⟨r', p', hp, hmay⟩
  · rcases h.reads hc hproc hrun with hsame | hback | hmay
    · obtain ⟨hpub, hstays⟩ := hfaithful.move hm hsame
      refine Or.inl ⟨fun j => ?_, hpub⟩
      rcases eq_or_ne j i with rfl | hne
      · exact Or.inl hstays
      · exact hothers j hne
    · have hpub : (slot d.db).committed = (slot c.db).committed := by
        rw [hback, Slot.rollback_committed]
      refine Or.inl ⟨fun j => ?_, congrArg f hpub⟩
      rcases eq_or_ne j i with rfl | hne
      · refine Or.inl (Slot.Faithful.of_visible ?_)
        rw [hback, Slot.visible_rollback, Slot.rollback_committed]
      · exact hothers j hne
    · exact Or.inr ⟨hright hmay, hmay⟩
  · rw [hproc] at hp
    cases hp
    exact Or.inr ⟨hright hmay, hmay⟩

/-- **In every run, whoever holds a version that reads otherwise has the right to.** -/
theorem rightful (h : Authority S C s₀ slot f may) (hc : Reachable S C (.initial s₀) c) :
    Rightful slot f may c := by
  induction hc with
  | refl => exact fun i => Or.inl (Slot.faithful_of_unlocked h.unlocked)
  | @tail c d hc hstep ih =>
    rcases h.step_cases hstep with ⟨hslot, hprocs⟩ | ⟨i, hback, hprocs⟩ | ⟨i, r, hi⟩
    · intro i
      rw [hslot]
      rcases ih i with hi | ⟨r, p, hp, hmay⟩
      · exact Or.inl hi
      · obtain ⟨p', hp'⟩ := hprocs i r p hp
        exact Or.inr ⟨r, p', hp', h.lasts hc hstep hmay⟩
    · intro j
      rw [hback]
      rcases eq_or_ne j i with rfl | hne
      · refine Or.inl (Slot.Faithful.of_visible ?_)
        rw [Slot.visible_rollback, Slot.rollback_committed]
      rcases ih j with hj | ⟨r, p, hp, hmay⟩
      · exact Or.inl (hj.of_other (.rollback _) hne)
      · exact Or.inr ⟨r, p, by rw [hprocs, setProc_of_ne hne, hp], h.lasts hc hstep hmay⟩
    · exact (h.rightful_query hc hstep ih hi).elim And.left And.left

/-- **What a step changes of the row, a process changes whose request has the right to.** -/
theorem changed (h : Authority S C s₀ slot f may) (hc : Reachable S C (.initial s₀) c)
    (hstep : Step S C c d) (hne : f (slot d.db).committed ≠ f (slot c.db).committed) :
    ∃ i r, c.Issues S i r d ∧ may r c.db := by
  rcases h.step_cases hstep with ⟨hslot, -⟩ | ⟨i, hback, -⟩ | ⟨i, r, hi⟩
  · exact absurd (by rw [hslot]) hne
  · exact absurd (by rw [hback, Slot.rollback_committed]) hne
  · rcases h.rightful_query hc hstep (h.rightful hc) hi with ⟨-, hsame⟩ | ⟨-, hmay⟩
    · exact absurd hsame hne
    · exact ⟨i, r, hi, hmay⟩

end Authority

/-! ### Rights that are found out -/

namespace Prog

variable {i : ι} {J A : σ → Prop} {φ : {β : Type} → Q β → Prop}

/-- **A program that finds out whether it has a right**: it issues queries that need none (`φ`)
until it has looked at a store where it has the right (`A`). It may rely on `J` when it looks. -/
def Guarded (i : ι) (J A : σ → Prop) (φ : {β : Type} → Q β → Prop) : Prog ι σ Q α → Prop
  | ret _ => True
  | read f k => ∀ s, J s → (k (f i s)).Guarded i J A φ ∨ A s
  | query q k => φ q ∧ ∀ b, (k b).Guarded i J A φ

theorem guarded_of_each {p : Prog ι σ Q α} (h : p.Each φ) : p.Guarded i J A φ := by
  induction p with
  | ret a => trivial
  | read f k ih => exact fun s _ => Or.inl (ih _ (h _))
  | query q k ih => exact ⟨h.1, fun b => ih b (h.2 b)⟩

/-- A program, and another one after it that needs no right. -/
theorem Guarded.bind {p : Prog ι σ Q β} {k : β → Prog ι σ Q α} (hp : p.Guarded i J A φ)
    (hk : ∀ b, (k b).Each φ) : (p >>= k).Guarded i J A φ := by
  induction p with
  | ret a => exact guarded_of_each (hk a)
  | read f g ih => exact fun s hs => (hp s hs).imp (ih _) id
  | query q g ih => exact ⟨hp.1, fun b => ih b (hp.2 b)⟩

/-- A program that may fail early finds out no less. -/
theorem Guarded.failAt {p : Prog ι σ Q α} {a : α} (h : p.Guarded i J A φ) (fault : Option ℕ) :
    (p.failAt a fault).Guarded i J A φ := by
  rcases fault with _ | n
  · rwa [failAt_none]
  induction p generalizing n with
  | ret b => cases n <;> trivial
  | read f k ih =>
    cases n with
    | zero => trivial
    | succ n => exact fun s hs => (h s hs).imp (fun h => ih _ h n) id
  | query q k ih =>
    cases n with
    | zero => trivial
    | succ n => exact ⟨h.1, fun b => ih b (h.2 b) n⟩

end Prog

/-- A program that may fail, and looks first. -/
theorem Action.guarded_look {ε : Type} {i : ι} {J A : σ → Prop} {φ : {β : Type} → Q β → Prop}
    {f : ι → σ → β} {k : β → Action ι σ Q ε α}
    (h : ∀ s b, J s → f i s = b → (k b).run.Guarded i J A φ ∨ A s) :
    (Action.look f >>= k).run.Guarded i J A φ :=
  fun s hs => h s (f i s) hs rfl

section Guarded

variable [DecidableEq ι] {s₀ : σ} {c : Config ι σ ρ α Q} {i : ι} {r : ρ} {J : ι → ρ → σ → Prop}
  {A : ρ → σ → Prop} {φ : ρ → {β : Type} → Q β → Prop}

/-- **A right that has been found out is there when it is used**, if it is never lost. -/
theorem guarded_of_reachable
    (hprog : ∀ i r, (S.program i r).Guarded i (J i r) (A r) (φ r) ∨ ∀ s, A r s)
    (hJ : ∀ {c : Config ι σ ρ α Q} {i : ι} {r : ρ} {p : Prog ι σ Q α},
      Reachable S C (.initial s₀) c → c.procs i = .running r p → J i r c.db)
    (hA : ∀ {c d : Config ι σ ρ α Q} {r : ρ}, Reachable S C (.initial s₀) c → Step S C c d →
      A r c.db → A r d.db)
    (hc : Reachable S C (.initial s₀) c) {p : Prog ι σ Q α} (hi : c.procs i = .running r p) :
    p.Guarded i (J i r) (A r) (φ r) ∨ A r c.db := by
  induction hc generalizing i r p with
  | refl => exact absurd hi Proc.running_ne_idle.symm
  | @tail c d hc hstep ih =>
    -- a process that does not move keeps what it has found out
    have hold : c.procs i = .running r p → p.Guarded i (J i r) (A r) (φ r) ∨ A r d.db :=
      fun h => (ih h).imp id (hA hc hstep)
    cases hstep with
    | arrive j r' hj =>
      rcases setProc_running hi with ⟨rfl, hr⟩ | ⟨-, h⟩
      · cases hr
        exact (hprog _ _).imp id fun h => h _
      · exact hold h
    | read hj =>
      rcases setProc_running hi with ⟨rfl, hr⟩ | ⟨-, h⟩
      · cases hr
        rcases ih hj with h | h
        · exact h _ (hJ hc hj)
        · exact Or.inr h
      · exact hold h
    | query hj hC hq =>
      rcases setProc_running hi with ⟨rfl, hr⟩ | ⟨-, h⟩
      · cases hr
        rcases ih hj with h | h
        · exact Or.inl (h.2 _)
        · exact Or.inr (hA hc (.query hj hC hq) h)
      · exact hold h
    | crash hj hC hq =>
      rcases setProc_running hi with ⟨-, hr⟩ | ⟨-, h⟩
      · cases hr
      · exact hold h
    | tick n => exact hold hi

/-- **Authority, from programs that find out whether they have the right**: what needs no right
leaves the row reading as it did, or rolls back. -/
theorem Authority.of_guarded {slot : σ → Slot ι R} {f : Option R → γ}
    (hunlocked : (slot s₀).lock = none)
    (hmove : ∀ {β : Type} (q : Q β) i s b s', S.run q i s = some (b, s') →
      Slot.Move i (slot s) (slot s'))
    (hrollback : ∀ i s s', S.run S.rollback i s = some ((), s') → slot s' = (slot s).rollback i)
    (htick : ∀ s n, slot (S.tick n s) = slot s)
    (hprog : ∀ i r, (S.program i r).Guarded i (J i r) (A r) (φ r) ∨ ∀ s, A r s)
    (hJ : ∀ {c : Config ι σ ρ α Q} {i : ι} {r : ρ} {p : Prog ι σ Q α},
      Reachable S C (.initial s₀) c → c.procs i = .running r p → J i r c.db)
    (hA : ∀ {c d : Config ι σ ρ α Q} {r : ρ}, Reachable S C (.initial s₀) c → Step S C c d →
      A r c.db → A r d.db)
    (hφ : ∀ {β : Type} (q : Q β) i r s b s', φ r q → S.run q i s = some (b, s') →
      f ((slot s').visible i) = f ((slot s).visible i) ∨ slot s' = (slot s).rollback i) :
    Authority S C s₀ slot f A where
  unlocked := hunlocked
  move := hmove
  rollback := hrollback
  tick := htick
  lasts := hA
  reads := by
    intro c i r δ q k b s hc hi hq
    rcases guarded_of_reachable hprog hJ hA hc hi with h | h
    · exact (hφ q i r c.db b s h.1 hq).imp id Or.inl
    · exact Or.inr (Or.inr h)

end Guarded

end ReadCommitted
