import Marketplace.ReadCommitted.Lasting

/-!
# Rows that fit when they are published

A condition on rows that a transaction breaks and mends again: every published row satisfies it
(`ReadCommitted.Table.Fits`), and what a process is about to publish does too, but for the rows
that it is still at work on (`ReadCommitted.Table.Settled`). A process commits when there are none
of these left, and no row that does not fit is published then
(`ReadCommitted.Table.Fits.commit`). What the others do meanwhile is of no account, since a row
that a process is at work on is held.
-/

namespace ReadCommitted

namespace Table

variable {ι K R : Type} [DecidableEq ι] [DecidableEq K] {i j : ι} {k : K} {r : R}
  {t t' : Table ι K R} {P : K → R → Prop} {D : K → Prop}

omit [DecidableEq ι] [DecidableEq K] in
/-- Every published row fits. -/
def Fits (P : K → R → Prop) (t : Table ι K R) : Prop :=
  ∀ k r, (t.slot k).committed = some r → P k r

omit [DecidableEq ι] [DecidableEq K] in
/-- **What process `i` is about to publish fits**, but for the rows of `D`. -/
def Settled (P : K → R → Prop) (D : K → Prop) (i : ι) (t : Table ι K R) : Prop :=
  ∀ k r, t.Draft i k r → D k ∨ P k r

omit [DecidableEq K] in
/-- A step of another process leaves what this one is about to publish. -/
theorem Settled.of_other (h : t.Settled P D i) (hmoves : Moves j t t') (hne : j ≠ i) :
    t'.Settled P D i :=
  fun k r hd => h k r ((draft_iff_of_other hmoves hne).mp hd)

omit [DecidableEq ι] [DecidableEq K] in
theorem settled_of_unlocked (h : ∀ k, (t.slot k).lock = none) : t.Settled P D i :=
  fun k _ hd => absurd hd (not_draft_of_unlocked (h k))

omit [DecidableEq K] in
theorem settled_commit : (t.commit i).Settled P D i := fun _ _ hd => absurd hd not_draft_of_commit

omit [DecidableEq K] in
theorem settled_rollback : (t.rollback i).Settled P D i :=
  fun _ _ hd => absurd hd not_draft_of_rollback

omit [DecidableEq K] in
theorem Fits.rollback (h : t.Fits P) : (t.rollback i).Fits P := by
  intro k r hr
  rw [slot_rollback, Slot.rollback_committed] at hr
  exact h k r hr

omit [DecidableEq K] in
/-- **What is settled when it is committed is published so.** -/
theorem Fits.commit (h : t.Fits P) (hs : t.Settled P (fun _ => False) i) : (t.commit i).Fits P := by
  intro k r hr
  rcases committed_of_commit hr with hd | hc
  · exact (hs k r hd).resolve_left id
  · exact h k r hc

omit [DecidableEq K] in
/-- A row that a process sees fits, unless it is still at work on it. -/
theorem Fits.row (h : t.Fits P) (hs : t.Settled P D i) (hr : t.row i k = some r) :
    D k ∨ P k r := by
  rcases Slot.visible_cases i (t.slot k) with hlock | hc
  · exact hs k r (by rw [Draft, hlock]; exact congrArg (fun v => some (i, v)) hr)
  · exact Or.inr (h k r (hc.symm.trans hr))

/-- **A query that leaves fitting what fits**, of a process that is at work on nothing. -/
theorem Effect.fits {A : K → Option R → R → Prop} (he : Effect A i t t') (h : t.Fits P)
    (hs : t.Settled P (fun _ => False) i)
    (hA : ∀ k r, A k (t.row i k) r → (∀ r₀, t.row i k = some r₀ → P k r₀) → P k r) :
    t'.Fits P ∧ t'.Settled P (fun _ => False) i := by
  cases he with
  | keep => exact ⟨h, hs⟩
  | @put k r m hfree hr =>
    have hnew : P k r := hA k r hr fun r₀ hr₀ => (h.row hs hr₀).resolve_left id
    refine ⟨fun l r' hr' => ?_, fun l r' hd => ?_⟩
    · rcases eq_or_ne l k with rfl | hne
      · rw [slot_put_self] at hr'
        cases m with
        | tx => exact h l r' hr'
        | auto => exact Option.some.inj hr' ▸ hnew
      · rw [slot_put_of_ne hne] at hr'
        exact h l r' hr'
    · rcases eq_or_ne l k with rfl | hne
      · rw [Draft, slot_put_self] at hd
        obtain ⟨-, he, -⟩ := Slot.lock_put hd
        exact Or.inr (Option.some.inj he ▸ hnew)
      · exact hs l r' ((draft_put_of_ne hne).mp hd)
  | commit => exact ⟨h.commit hs, settled_commit⟩
  | rollback => exact ⟨h.rollback, settled_rollback⟩

omit [DecidableEq ι] in
/-- **A row is taken up**: it need not fit from now on. -/
theorem Settled.put_open (h : t.Settled P (fun _ => False) i) :
    (t.put k ((t.slot k).put .tx i r)).Settled P (· = k) i := by
  intro l r' hd
  rcases eq_or_ne l k with rfl | hne
  · exact Or.inl rfl
  · exact Or.inr ((h l r' ((draft_put_of_ne hne).mp hd)).resolve_left id)

omit [DecidableEq ι] in
/-- **A row is left fitting.** -/
theorem Settled.put_done (h : t.Settled P (· = k) i) (hr : P k r) :
    (t.put k ((t.slot k).put .tx i r)).Settled P (fun _ => False) i := by
  intro l r' hd
  rcases eq_or_ne l k with rfl | hne
  · rw [Draft, slot_put_self] at hd
    obtain ⟨-, he, -⟩ := Slot.lock_put hd
    exact Or.inr (Option.some.inj he ▸ hr)
  · exact Or.inr ((h l r' ((draft_put_of_ne hne).mp hd)).resolve_left hne)

end Table

end ReadCommitted
