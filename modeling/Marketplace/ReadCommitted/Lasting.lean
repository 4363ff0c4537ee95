import Marketplace.ReadCommitted.Unique

/-!
# Rows that last

A row that is never deleted, and of which something never changes – what it is known by, whom it
belongs to – keeps that under every statement, so that what one process has seen of it is true
for all of them from then on. `ReadCommitted.Lasts` is the order on versions that says so, and
what a process sees of a table only goes up in such an order, by the steps of others
(`ReadCommitted.Table.le_row_of_other`) and by its own statements
(`ReadCommitted.Table.Written.le_row`); giving up its transaction is the one exception.
-/

namespace ReadCommitted

variable {ι K R γ : Type}

/-- **The row lasts**: if it is there it stays, and `f` of it stays the same. -/
def Lasts (f : R → γ) (v w : Option R) : Prop := ∀ r, v = some r → ∃ r', w = some r' ∧ f r' = f r

variable {f : R → γ} {u v w : Option R} {r : R}

theorem Lasts.refl (v : Option R) : Lasts f v v := fun r hr => ⟨r, hr, rfl⟩

theorem Lasts.trans (u v w : Option R) (h : Lasts f u v) (h' : Lasts f v w) : Lasts f u w := by
  intro r hr
  obtain ⟨r₁, hr₁, hf⟩ := h r hr
  obtain ⟨r₂, hr₂, hf'⟩ := h' r₁ hr₁
  exact ⟨r₂, hr₂, hf'.trans hf⟩

theorem Lasts.none : Lasts f Option.none w := fun _ h => nomatch h

theorem Lasts.some {r r' : R} (h : f r' = f r) : Lasts f (some r) (some r') := by
  rintro _ ⟨⟩
  exact ⟨r', rfl, h⟩

variable [DecidableEq ι] [DecidableEq K]

namespace Table

variable {i j : ι} {k : K} {t t' : Table ι K R} {le : Option R → Option R → Prop}

omit [DecidableEq K] in
/-- A process sees at least what is published. -/
theorem Ordered.le_row (ht : t.Ordered le) (hrefl : ∀ v, le v v) (i : ι) (k : K) :
    le (t.slot k).committed (t.row i k) :=
  (ht k).visible hrefl

omit [DecidableEq K] in
/-- What a process has seen, it still sees after the step of another one. -/
theorem le_row_of_other (hmoves : Moves j t t') (hgrown : Grown le t t') (hrefl : ∀ v, le v v)
    (hne : j ≠ i) (k : K) : le (t.row i k) (t'.row i k) := by
  by_cases hheld : ∃ v, (t.slot k).lock = some (i, v)
  · obtain ⟨v, hv⟩ := hheld
    have hsame : t'.slot k = t.slot k := (hmoves k).eq_of_held hv hne.symm
    rw [row, row, hsame]
    exact hrefl _
  · have hseen : ∀ {x : Slot ι R}, (¬ ∃ v, x.lock = some (i, v)) → x.visible i = x.committed := by
      intro x hx
      rcases hlock : x.lock with _ | ⟨l, v⟩
      · exact Slot.visible_of_unlocked hlock
      · refine Slot.visible_of_other hlock fun hl => hx ⟨v, ?_⟩
        rw [hlock, hl]
    have hheld' : ¬ ∃ v, (t'.slot k).lock = some (i, v) := by
      rintro ⟨v, hv⟩
      exact hheld ⟨v, (hmoves.lock_iff hne).mp hv⟩
    rw [row, row, hseen hheld, hseen hheld']
    exact hgrown k

omit [DecidableEq K] in
/-- **What a process sees of the rows that satisfy `p`**, after the step of another one, is what it
saw of them, and what is published of them: if a row that satisfies `p` goes on doing so. -/
theorem seen_iff_of_other {p : R → Prop}
    (hp : ∀ v w, le v w → ∀ r, v = some r → p r → ∃ r', w = some r' ∧ p r')
    (hordered : t'.Ordered le) (hgrown : Grown le t t') (hmoves : Moves j t t')
    (hrefl : ∀ v, le v v) (hne : j ≠ i) (k : K) :
    (∃ r, t'.row i k = some r ∧ p r) ↔
      (∃ r, t.row i k = some r ∧ p r) ∨ ∃ r, (t'.slot k).committed = some r ∧ p r := by
  constructor
  · rintro ⟨r, hr, hpr⟩
    rcases Slot.visible_cases i (t'.slot k) with hlock | hc
    · have hheld : (t.slot k).lock = some (i, t'.row i k) := (hmoves.lock_iff hne).mp hlock
      refine Or.inl ⟨r, ?_, hpr⟩
      rw [row, Slot.visible_of_held hheld, hr]
    · exact Or.inr ⟨r, hc.symm.trans hr, hpr⟩
  · rintro (⟨r, hr, hpr⟩ | ⟨r, hr, hpr⟩)
    · exact hp _ _ (le_row_of_other hmoves hgrown hrefl hne k) r hr hpr
    · exact hp _ _ (hordered.le_row hrefl i k) r hr hpr

omit [DecidableEq K] in
theorem grown_rollback (hrefl : ∀ v, le v v) (t : Table ι K R) : Grown le t (t.rollback i) := by
  intro k
  rw [slot_rollback, Slot.rollback_committed]
  exact hrefl _

omit [DecidableEq K] in
/-- What a process sees and is not published is what it is about to publish. -/
theorem draft_of_row {r : R} (h : t.row i k = some r) (hnone : (t.slot k).committed = none) :
    (t.slot k).lock = some (i, some r) := by
  rcases Slot.visible_cases i (t.slot k) with hlock | hc
  · rw [hlock]
    exact congrArg (fun o => some (i, o)) h
  · cases h.symm.trans (hc.trans hnone)

/-- What a process has put over a row, it sees. -/
theorem row_put_self {m : Mode} {x : Slot ι R} {r : R} : (t.put k (x.put m i r)).row i k = some r := by
  rw [row, slot_put_self, Slot.visible_put]

theorem row_put_of_ne {x : Slot ι R} {l : K} (hne : l ≠ k) : (t.put k x).row i l = t.row i l := by
  rw [row, slot_put_of_ne hne, row]

/-- **What one statement that does not end the transaction can do to a table**: nothing, or put
over one row a version that `A` allows there, in this mode. -/
inductive Written (A : Mode → K → Option R → R → Prop) (i : ι) : Table ι K R → Table ι K R → Prop
  /-- The table is left alone. -/
  | keep (t : Table ι K R) : Written A i t t
  /-- A version is put over a row nobody else holds. -/
  | put {t : Table ι K R} {k : K} {r : R} {m : Mode} (hfree : (t.slot k).freeFor i = true)
      (hA : A m k (t.row i k) r) : Written A i t (t.put k ((t.slot k).put m i r))

section Written

variable {A B : Mode → K → Option R → R → Prop} {m : Mode} {β : Type} {b : β}

theorem written_of_modify {f : Option R → β × Option R} (h : t.modify m i k f = some (b, t'))
    (hf : ∀ r, (f (t.row i k)).2 = some r → A m k (t.row i k) r) : Written A i t t' := by
  obtain ⟨hfree, -, ⟨-, rfl⟩ | ⟨r, hr, rfl⟩⟩ := modify_cases h
  · exact .keep _
  · exact .put hfree (hf r hr)

theorem written_of_modifyUnique {clash : R → R → Bool} {f : Option R → β × Option R}
    {o : Option β} (h : t.modifyUnique m i k clash f = some (o, t'))
    (hf : ∀ r, (f (t.row i k)).2 = some r → A m k (t.row i k) r) : Written A i t t' := by
  rcases modifyUnique_cases h with ⟨-, rfl⟩ | ⟨⟨b', -, hmod⟩, -⟩
  · exact .keep _
  · exact written_of_modify hmod hf

theorem written_of_insertFresh {A : Mode → ℕ → Option R → R → Prop} {t t' : Table ι ℕ R}
    {clash : R → Bool} {r : R} {o : Option ℕ} (h : t.insertFresh m i clash r = some (o, t'))
    (hA : A m t.fresh none r) : Written A i t t' := by
  obtain ⟨-, ⟨-, rfl⟩ | ⟨-, rfl, -⟩⟩ := insertFresh_cases h
  · exact .keep _
  · have hrow : t.row i t.fresh = none := by
      rw [row, slot_fresh]
      rfl
    rw [← slot_fresh t]
    exact .put (by rw [slot_fresh]; rfl) (hrow ▸ hA)

theorem Written.effect (h : Written A i t t') : Effect (fun k o r => ∃ m, A m k o r) i t t' := by
  cases h with
  | keep => exact .keep _
  | put hfree hA => exact .put _ hfree ⟨_, hA⟩

/-- What a process has seen, it still sees after a statement of its own. -/
theorem Written.le_row (h : Written A i t t') (hrefl : ∀ v, le v v)
    (hA : ∀ m k r, A m k (t.row i k) r → le (t.row i k) (some r)) (k : K) :
    le (t.row i k) (t'.row i k) := by
  cases h with
  | keep => exact hrefl _
  | @put k₀ r m hfree hr =>
    rcases eq_or_ne k k₀ with rfl | hne
    · rw [row_put_self]
      exact hA m k r hr
    · rw [row_put_of_ne hne]
      exact hrefl _

/-- **What a process sees of the rows that satisfy `p`** is not changed by a statement of its own
that writes such a row over such a row only. -/
theorem Written.seen_iff (h : Written A i t t') {p : R → Prop}
    (hA : ∀ m k r, A m k (t.row i k) r → (p r ↔ ∃ r₀, t.row i k = some r₀ ∧ p r₀)) (k : K) :
    (∃ r, t'.row i k = some r ∧ p r) ↔ ∃ r, t.row i k = some r ∧ p r := by
  cases h with
  | keep => exact Iff.rfl
  | @put k₀ r m hfree hr =>
    rcases eq_or_ne k k₀ with rfl | hne
    · rw [row_put_self, ← hA m k r hr]
      simp
    · rw [row_put_of_ne hne]

/-- A statement of an open transaction publishes nothing. -/
theorem Written.committed (h : Written A i t t') (hA : ∀ m k o r, A m k o r → m = .tx) (k : K) :
    (t'.slot k).committed = (t.slot k).committed := by
  cases h with
  | keep => rfl
  | @put k₀ r m hfree hr =>
    obtain rfl := hA _ _ _ _ hr
    rcases eq_or_ne k k₀ with rfl | hne
    · rw [slot_put_self]
      rfl
    · rw [slot_put_of_ne hne]

end Written

/-- **What a statement publishes**: nothing, or what its action makes of what is published. -/
theorem committed_modify_cases {m : Mode} {β : Type} {f : Option R → β × Option R} {b : β}
    (h : t.modify m i k f = some (b, t')) (l : K) :
    (t'.slot l).committed = (t.slot l).committed ∨
      l = k ∧ ∃ r, (f (t.slot k).committed).2 = some r ∧ (t'.slot k).committed = some r := by
  cases m with
  | tx => exact Or.inl (committed_modify h l)
  | auto =>
    have hrow : t.row i k = (t.slot k).committed := Slot.visible_of_unlocked (unlocked_of_auto h)
    by_cases hl : l = k
    · subst hl
      obtain ⟨-, -, ⟨-, rfl⟩ | ⟨r, hr, rfl⟩⟩ := modify_cases h
      · exact Or.inl rfl
      · refine Or.inr ⟨rfl, r, by rw [← hrow, hr], ?_⟩
        rw [slot_put_self]
        rfl
    · exact Or.inl (by rw [slot_modify_of_ne h hl])

/-! ### What a process is about to publish -/

omit [DecidableEq ι] [DecidableEq K] in
/-- A row that somebody is about to publish. -/
def Draft (t : Table ι K R) (i : ι) (k : K) (r : R) : Prop := (t.slot k).lock = some (i, some r)

omit [DecidableEq K] in
/-- What a process is about to publish, it sees. -/
theorem Draft.row (h : t.Draft i k r) : t.row i k = some r := Slot.visible_of_held h

omit [DecidableEq ι] in
theorem draft_put {x : Slot ι R} : (t.put k (x.put .tx i r)).Draft i k r := by
  rw [Draft, slot_put_self]
  rfl

omit [DecidableEq ι] in
theorem draft_put_of_ne {x : Slot ι R} {l : K} (hne : l ≠ k) :
    (t.put k x).Draft i l r ↔ t.Draft i l r := by
  rw [Draft, Draft, slot_put_of_ne hne]

omit [DecidableEq ι] in
/-- A row under a new identifier is not published. -/
theorem committed_put_fresh {t : Table ι ℕ R} :
    ((t.put t.fresh (Slot.put .tx i r {})).slot t.fresh).committed = none := by
  rw [slot_put_self]
  rfl

omit [DecidableEq K] in
/-- A step of another process leaves the drafts of this one. -/
theorem draft_iff_of_other (hmoves : Moves j t t') (hne : j ≠ i) :
    t'.Draft i k r ↔ t.Draft i k r :=
  hmoves.lock_iff hne

/-- What a process is about to publish after a statement of its own, it was about to publish
before, or the statement wrote it, over what the process saw. -/
theorem Written.draft {A : Mode → K → Option R → R → Prop} (h : Written A i t t')
    (hd : t'.Draft i k r) : t.Draft i k r ∨ ∃ m, A m k (t.row i k) r := by
  cases h with
  | keep => exact Or.inl hd
  | @put k₀ r₀ m hfree hr =>
    rcases eq_or_ne k k₀ with rfl | hne
    · rw [Draft, slot_put_self] at hd
      obtain ⟨-, he, -⟩ := Slot.lock_put hd
      cases he
      exact Or.inr ⟨m, hr⟩
    · rw [Draft, slot_put_of_ne hne] at hd
      exact Or.inl hd

/-- What a process was about to publish, it is about to publish, in that version or another. -/
theorem Written.draft_kept {A : Mode → K → Option R → R → Prop} (h : Written A i t t')
    (hA : ∀ m k o r, A m k o r → m = .tx) (hd : t.Draft i k r) : ∃ r', t'.Draft i k r' := by
  cases h with
  | keep => exact ⟨r, hd⟩
  | @put k₀ r₀ m hfree hr =>
    obtain rfl := hA _ _ _ _ hr
    rcases eq_or_ne k k₀ with rfl | hne
    · exact ⟨r₀, by rw [Draft, slot_put_self]; rfl⟩
    · exact ⟨r, by rwa [Draft, slot_put_of_ne hne]⟩

omit [DecidableEq K] in
theorem not_draft_of_commit : ¬ (t.commit i).Draft i k r := fun h => (Slot.lock_of_commit h).1 rfl

omit [DecidableEq K] in
theorem not_draft_of_rollback : ¬ (t.rollback i).Draft i k r :=
  fun h => (Slot.lock_of_rollback h).1 rfl

/-- What a process is about to publish after a query of its own, it was about to publish before,
or the query wrote it. -/
theorem Effect.draft {A : K → Option R → R → Prop} (h : Effect A i t t') (hd : t'.Draft i k r) :
    t.Draft i k r ∨ A k (t.row i k) r := by
  cases h with
  | keep => exact Or.inl hd
  | @put k₀ r₀ m hfree hr =>
    rcases eq_or_ne k k₀ with rfl | hne
    · rw [Draft, slot_put_self] at hd
      obtain ⟨-, he, -⟩ := Slot.lock_put hd
      cases he
      exact Or.inr hr
    · rw [Draft, slot_put_of_ne hne] at hd
      exact Or.inl hd
  | commit => exact absurd hd not_draft_of_commit
  | rollback => exact absurd hd not_draft_of_rollback

omit [DecidableEq K] in
/-- What a process sees once it has committed is what it saw before. -/
theorem row_commit : (t.commit i).row i k = t.row i k := by
  rw [row, slot_commit]
  rcases Slot.visible_cases i ((t.slot k).commit i) with hlock | hc
  · exact absurd rfl (Slot.lock_of_commit hlock).1
  · rw [hc, Slot.commit_committed, row]

omit [DecidableEq K] in
/-- Once a process has given its transaction up, it sees what is published. -/
theorem row_rollback : (t.rollback i).row i k = (t.slot k).committed := by
  rw [row, slot_rollback]
  rcases Slot.visible_cases i ((t.slot k).rollback i) with hlock | hc
  · exact absurd rfl (Slot.lock_of_rollback hlock).1
  · rw [hc, Slot.rollback_committed]

omit [DecidableEq K] in
/-- What is published by the end of a transaction was published before, or was about to be. -/
theorem committed_of_commit (h : ((t.commit i).slot k).committed = some r) :
    t.Draft i k r ∨ (t.slot k).committed = some r := by
  rw [slot_commit, Slot.commit_committed] at h
  rcases Slot.visible_cases i (t.slot k) with hlock | hc
  · exact Or.inl (by rw [Draft, hlock, h])
  · exact Or.inr (hc.symm.trans h)

omit [DecidableEq ι] [DecidableEq K] in
theorem not_draft_of_unlocked (h : (t.slot k).lock = none) : ¬ t.Draft i k r := by
  intro hd
  rw [Draft, h] at hd
  cases hd

end Table

end ReadCommitted
