import Marketplace.ReadCommitted.Program
import Marketplace.ReadCommitted.Statements

/-!
# Programs that run alone

What a program does when nothing comes between its steps: it runs to its end, and its result and
the store it leaves are as `post` says (`ReadCommitted.Prog.Alone`). This is a claim about
termination as much as about results, since a query that has to wait is one that has no answer.

The rules follow the programs: one for what comes after another
(`ReadCommitted.Prog.Alone.bind`), and one for each kind of loop, where what is known before a
round is known of the elements that remain. A process that runs alone is one run of the system
among others (`ReadCommitted.Prog.Alone.reachable`), which is how a run that is too long to be
written out as a schedule is exhibited.

A table that nobody else has written (`ReadCommitted.Table.Own`) is to such a process what its
rows are: a statement never waits, and a commit changes nothing that the process sees.
-/

namespace ReadCommitted

variable {ι σ ρ α γ κ β : Type} {Q : Type → Type 1} {S : System ι σ ρ α Q} {i : ι}

namespace Prog

/-- **The program, run alone from a store**, ends, as `post` says. -/
def Alone (S : System ι σ ρ α Q) (i : ι) (post : γ → σ → Prop) : Prog ι σ Q γ → σ → Prop
  | ret a, s => post a s
  | read f k, s => (k (f i s)).Alone S i post s
  | query q k, s => ∃ b s', S.run q i s = some (b, s') ∧ (k b).Alone S i post s'

variable {post : γ → σ → Prop} {p : Prog ι σ Q γ} {s : σ}

theorem Alone.mono {post' : γ → σ → Prop} (h : p.Alone S i post s)
    (hpost : ∀ a s, post a s → post' a s) : p.Alone S i post' s := by
  induction p generalizing s with
  | ret a => exact hpost a s h
  | read f k ih => exact ih _ h
  | query q k ih =>
    obtain ⟨b, s', hq, h⟩ := h
    exact ⟨b, s', hq, ih b h⟩

/-- There is an end. -/
theorem Alone.exists (h : p.Alone S i post s) : ∃ a s', post a s' := by
  induction p generalizing s with
  | ret a => exact ⟨a, s, h⟩
  | read f k ih => exact ih _ h
  | query q k ih =>
    obtain ⟨b, s', -, h⟩ := h
    exact ih b h

/-- And there is one end only. -/
theorem Alone.and {post' : γ → σ → Prop} (h : p.Alone S i post s) (h' : p.Alone S i post' s) :
    p.Alone S i (fun a s => post a s ∧ post' a s) s := by
  induction p generalizing s with
  | ret a => exact ⟨h, h'⟩
  | read f k ih => exact ih _ h h'
  | query q k ih =>
    obtain ⟨b, t, hq, h⟩ := h
    obtain ⟨b', t', hq', h'⟩ := h'
    obtain ⟨rfl, rfl⟩ := Prod.mk.inj (Option.some.inj (hq.symm.trans hq'))
    exact ⟨b, t, hq, ih b h h'⟩

/-- One program after another. -/
theorem Alone.bind {p : Prog ι σ Q β} {f : β → Prog ι σ Q γ}
    (h : p.Alone S i (fun b => (f b).Alone S i post) s) : (p >>= f).Alone S i post s := by
  induction p generalizing s with
  | ret b => exact h
  | read g k ih => exact ih _ h
  | query q k ih =>
    obtain ⟨b, s', hq, h⟩ := h
    exact ⟨b, s', hq, ih b h⟩

/-- **The rule for a loop over a list.** -/
theorem Alone.countEach {f : κ → Prog ι σ Q Bool} (I : List κ → σ → Prop)
    (h : ∀ k ks s, I (k :: ks) s → (f k).Alone S i (fun _ => I ks) s) {ks : List κ}
    (hs : I ks s) : (Prog.countEach ks f).Alone S i (fun _ => I []) s := by
  induction ks generalizing s with
  | nil => exact hs
  | cons k ks ih => exact ((h k ks s hs).mono fun _ _ hs => (ih hs).bind.mono fun _ _ h => h).bind

/-- **The rule for a loop that collects answers**, when each element has one. -/
theorem Alone.takeEach {f : κ → Prog ι σ Q (Option β)} (g : κ → β) (I : List κ → σ → Prop)
    (h : ∀ k ks s, I (k :: ks) s → (f k).Alone S i (fun b s => b = some (g k) ∧ I ks s) s)
    (limit : ℕ) {ks : List κ} (hs : I ks s) :
    (Prog.takeEach f limit ks).Alone S i
      (fun bs s => bs = (ks.take limit).map g ∧ I (ks.drop limit) s) s := by
  induction ks generalizing limit s with
  | nil => cases limit <;> exact ⟨by simp, by simpa using hs⟩
  | cons k ks ih =>
    cases limit with
    | zero => exact ⟨rfl, hs⟩
    | succ limit =>
      refine ((h k ks s hs).mono ?_).bind
      rintro _ s ⟨rfl, hs⟩
      refine ((ih limit hs).mono ?_).bind
      rintro _ s ⟨rfl, hs⟩
      exact ⟨rfl, hs⟩

variable [DecidableEq ι]

/-- **What a program does alone, a process that runs it can do**, whatever the others are at. -/
theorem Alone.reachable {post : α → σ → Prop} {p : Prog ι σ Q α} {c : Config ι σ ρ α Q} {r : ρ}
    (h : p.Alone S i post c.db) (hi : c.procs i = .running r p) :
    ∃ d a, Reachable S anyQuery c d ∧ d.Served i r a ∧ post a d.db := by
  induction p generalizing c with
  | ret a => exact ⟨c, a, .refl, hi, h⟩
  | read f k ih =>
    obtain ⟨d, a, hd, hserved, hpost⟩ := ih _ (c := ⟨c.db, setProc i (.running r _) c.procs⟩) h
      setProc_self
    exact ⟨d, a, .head (.read hi) hd, hserved, hpost⟩
  | query q k ih =>
    obtain ⟨b, s, hq, h⟩ := h
    obtain ⟨d, a, hd, hserved, hpost⟩ := ih b (c := ⟨s, setProc i (.running r _) c.procs⟩) h
      setProc_self
    exact ⟨d, a, .head (.query hi trivial hq) hd, hserved, hpost⟩

/-- A request that a process serves alone. -/
theorem Alone.served {post : α → σ → Prop} {c : Config ι σ ρ α Q} {r : ρ}
    (h : (S.program i r).Alone S i post c.db) (hi : c.procs i = .idle) :
    ∃ d a, Reachable S anyQuery c d ∧ d.Served i r a ∧ post a d.db := by
  obtain ⟨d, a, hd, hserved, hpost⟩ := h.reachable
    (c := ⟨c.db, setProc i (.running r (S.program i r)) c.procs⟩) setProc_self
  exact ⟨d, a, .head (.arrive i r hi) hd, hserved, hpost⟩

end Prog

/-! ### Programs that may fail -/

namespace Action

variable {ε : Type} {post : Except ε γ → σ → Prop} {s : σ}

/-- One program that may fail after another, when the first does not. -/
theorem alone_andThen {p : Action ι σ Q ε β} {k : β → Action ι σ Q ε γ}
    (h : p.run.Alone S i (fun r s => ∃ b, r = .ok b ∧ (k b).run.Alone S i post s) s) :
    (p >>= k).run.Alone S i post s := by
  refine Prog.Alone.bind (h.mono ?_)
  rintro _ s ⟨b, rfl, h⟩
  exact h

/-- A look at the store, before another program. -/
theorem alone_look {f : ι → σ → β} {k : β → Action ι σ Q ε γ}
    (h : (k (f i s)).run.Alone S i post s) : (Action.look f >>= k).run.Alone S i post s :=
  h

/-- One query, before another program. -/
theorem alone_query {q : Q β} {k : β → Action ι σ Q ε γ} {b : β} {s' : σ}
    (hq : S.run q i s = some (b, s')) (h : (k b).run.Alone S i post s') :
    (Action.query q >>= k).run.Alone S i post s :=
  ⟨b, s', hq, h⟩

/-- A program that cannot fail, before another one. -/
theorem alone_ofProg {p : Prog ι σ Q β} {k : β → Action ι σ Q ε γ}
    (h : p.Alone S i (fun b s => (k b).run.Alone S i post s) s) :
    (Action.ofProg p >>= k).run.Alone S i post s := by
  rw [ofProg_bind]
  exact Prog.Alone.bind h

/-- A program that cannot fail, as one that may. -/
theorem alone_last {p : Prog ι σ Q γ} (h : p.Alone S i (fun a s => post (.ok a) s) s) :
    (Action.ofProg p).run.Alone S i post s :=
  Prog.Alone.bind h

/-- **The rule for transactions** that do not fail. -/
theorem alone_transaction {commit rollback : Q Unit} {body : Action ι σ Q ε γ}
    (h : body.run.Alone S i (fun r s => ∃ a, r = .ok a ∧
      ∃ u s', S.run commit i s = some (u, s') ∧ post (.ok a) s') s) :
    (Action.transaction commit rollback body).run.Alone S i post s := by
  refine Prog.Alone.bind (h.mono ?_)
  rintro _ s ⟨a, rfl, u, s', hc, hpost⟩
  exact ⟨u, s', hc, hpost⟩

end Action

/-! ### Tables that nobody else has written -/

namespace Table

variable {K R : Type} [DecidableEq ι] [DecidableEq K] {t : Table ι K R} {k : K} {r : R} {b : β}
  {f : Option R → β × Option R}

/-- No row is held by another process. -/
def Own (i : ι) (t : Table ι K R) : Prop := ∀ k, (t.slot k).freeFor i = true

omit [DecidableEq K] in
theorem own_of_unlocked (h : ∀ k, (t.slot k).lock = none) : t.Own i := by
  intro k
  refine Slot.freeFor_iff.mpr fun j v hlock => ?_
  rw [h k] at hlock
  cases hlock

/-- A statement that puts a row. -/
theorem Own.modify_put (h : t.Own i) (hf : f (t.row i k) = (b, some r)) :
    ∃ t', t.modify .tx i k f = some (b, t') ∧ t'.Own i ∧
      (∀ l, t'.row i l = if l = k then some r else t.row i l) ∧
      t'.keys = if k ∈ t.keys then t.keys else t.keys ++ [k] := by
  refine ⟨t.put k ((t.slot k).put .tx i r), ?_, fun l => ?_, fun l => ?_, rfl⟩
  · have hadmits : (t.slot k).admits .tx i = true := h k
    rw [modify, if_pos hadmits, hf]
  · rw [slot_put]
    split
    · exact Slot.freeFor_iff.mpr fun j v hlock => (Slot.lock_put hlock).1
    · exact h l
  · rw [row, slot_put]
    split
    · exact Slot.visible_write
    · rfl

omit [DecidableEq ι] [DecidableEq K] in
/-- A table is its identifiers and its slots. -/
theorem eq_of_keys {t' : Table ι K R} (hkeys : t.keys = t'.keys) (hslot : t.slot = t'.slot) :
    t = t' := by
  obtain ⟨keys, slot, hnodup, hempty⟩ := t
  obtain ⟨keys', slot', hnodup', hempty'⟩ := t'
  obtain rfl : keys = keys' := hkeys
  obtain rfl : slot = slot' := hslot
  rfl

omit [DecidableEq ι] in
/-- Of two versions of a row, the second one stays. -/
theorem put_put {x y : Slot ι R} : (t.put k x).put k y = t.put k y := by
  have hmem : k ∈ (t.put k x).keys := by
    show k ∈ if k ∈ t.keys then t.keys else t.keys ++ [k]
    split
    · assumption
    · simp
  have hkeys : ((t.put k x).put k y).keys = (t.put k y).keys := if_pos hmem
  have hslot : ((t.put k x).put k y).slot = (t.put k y).slot := by
    funext l
    rcases eq_or_ne l k with rfl | hne
    · rw [slot_put_self, slot_put_self]
    · rw [slot_put_of_ne hne, slot_put_of_ne hne, slot_put_of_ne hne]
  exact eq_of_keys hkeys hslot

/-- A statement that finds nothing to put. -/
theorem Own.modify_keep (h : t.Own i) (hf : f (t.row i k) = (b, none)) :
    t.modify .tx i k f = some (b, t) := by
  have hadmits : (t.slot k).admits .tx i = true := h k
  rw [modify, if_pos hadmits, hf]

/-- A statement that deletes whatever row there is. -/
theorem Own.remove (h : t.Own i) :
    ∃ b t', t.remove .tx i k (fun _ => true) = some (b, t') ∧ t'.Own i ∧
      ∀ l, t'.row i l = if l = k then none else t.row i l := by
  have hadmits : (t.slot k).admits .tx i = true := h k
  cases hrow : t.row i k with
  | none =>
    refine ⟨false, t, by rw [Table.remove, if_pos hadmits, hrow]; rfl, h, fun l => ?_⟩
    split
    · rename_i hl
      rw [hl, hrow]
    · rfl
  | some r =>
    refine ⟨true, t.put k ((t.slot k).erase .tx i),
      by rw [Table.remove, if_pos hadmits, hrow]; rfl, fun l => ?_, fun l => ?_⟩
    · rw [slot_put]
      split
      · refine Slot.freeFor_iff.mpr fun j v hlock => ?_
        cases hlock
        rfl
      · exact h l
    · rw [row, slot_put]
      split
      · exact Slot.visible_write
      · rfl

/-- A statement on its own, on a row that nobody holds. -/
theorem modify_auto (h : (t.slot k).lock = none) (hf : f (t.row i k) = (b, some r)) :
    t.modify .auto i k f = some (b, t.put k ⟨some r, none⟩) := by
  have hadmits : (t.slot k).admits .auto i = true := Option.isNone_iff_eq_none.mpr h
  rw [modify, if_pos hadmits, hf]
  rfl

theorem modify_auto_keep (h : (t.slot k).lock = none) (hf : f (t.row i k) = (b, none)) :
    t.modify .auto i k f = some (b, t) := by
  have hadmits : (t.slot k).admits .auto i = true := Option.isNone_iff_eq_none.mpr h
  rw [modify, if_pos hadmits, hf]

/-- A statement that would skip a row that is held. -/
theorem Own.skipLocked {β : Type} {f : Option R → Option β × Option R} (h : t.Own i) :
    t.skipLocked .tx i k f = t.modify .tx i k f :=
  if_pos (h k)

omit [DecidableEq K] in
/-- **A commit publishes what the process sees**, and leaves nothing held. -/
theorem Own.slot_commit (h : t.Own i) : (t.commit i).slot k = ⟨t.row i k, none⟩ := by
  show (t.slot k).commit i = _
  rw [row]
  rcases Slot.lock_eq_of_freeFor (h k) with hnone | ⟨v, hv⟩
  · rw [Slot.commit_of_unlocked hnone, Slot.visible_of_unlocked hnone, ← hnone]
  · rw [Slot.commit_of_held hv, Slot.visible_of_held hv]

omit [DecidableEq K] in
theorem Own.commit (h : t.Own i) : (t.commit i).Own i :=
  own_of_unlocked fun k => by rw [h.slot_commit]

omit [DecidableEq K] in
theorem Own.row_commit (h : t.Own i) : (t.commit i).row i k = t.row i k := by
  have hslot := h.slot_commit (k := k)
  rw [row, Slot.visible_of_unlocked (by rw [hslot]), hslot]

end Table

end ReadCommitted
