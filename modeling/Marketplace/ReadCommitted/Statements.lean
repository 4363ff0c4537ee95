import Marketplace.ReadCommitted.Slot

/-!
# Statements on one row

At READ COMMITTED a statement that writes a row first waits until no other open
transaction holds it, then looks at the latest version – not at the one its
snapshot had –, and writes over that or finds that there is nothing to write. This
is `ReadCommitted.Table.modify`, of which updates, inserts and row locks are
cases; a statement over several rows takes a snapshot of their identifiers and
then modifies them one by one.

Two kinds of facts about a table survive every such statement, and are packaged
here: that all versions of the rows, published or not, satisfy a predicate
(`ReadCommitted.Table.Holds`), and that versions only grow in a given order, so
that what snapshots see does too (`ReadCommitted.Table.Ordered`).
-/

namespace ReadCommitted

/-- How a statement is issued: in the transaction that is open, or on its own, to be
committed at once. -/
inductive Mode
  /-- In the open transaction. -/
  | tx
  /-- On its own. -/
  | auto
  deriving DecidableEq

variable {ι K R β : Type} [DecidableEq ι]

/-! ### One row -/

namespace Slot

/-- Nobody is in the way of a statement: nobody else, or nobody at all for one that is
issued on its own. -/
def admits (m : Mode) (i : ι) (x : Slot ι R) : Bool :=
  match m with
  | .tx => x.freeFor i
  | .auto => x.lock.isNone

theorem freeFor_of_admits {m : Mode} {i : ι} {x : Slot ι R} (h : x.admits m i = true) :
    x.freeFor i = true := by
  cases m
  · exact h
  · have hnone : x.lock = none := Option.isNone_iff_eq_none.mp h
    exact freeFor_iff.mpr (by rw [hnone]; nofun)

omit [DecidableEq ι] in
/-- The row with version `r` put over it. -/
def put (m : Mode) (i : ι) (r : R) (x : Slot ι R) : Slot ι R :=
  match m with
  | .tx => x.write i (some r)
  | .auto => { committed := some r }

omit [DecidableEq ι] in
/-- The row, deleted. -/
def erase (m : Mode) (i : ι) (x : Slot ι R) : Slot ι R :=
  match m with
  | .tx => x.write i none
  | .auto => {}

omit [DecidableEq ι] in
/-- `r` is a version of the row, published or not. -/
def Version (x : Slot ι R) (r : R) : Prop := x.committed = some r ∨ ∃ j, x.lock = some (j, some r)

/-- The version over the row is above the published one. -/
def Ordered (le : Option R → Option R → Prop) (x : Slot ι R) : Prop :=
  ∀ j v, x.lock = some (j, v) → le x.committed v

variable {m : Mode} {i j : ι} {r : R} {x : Slot ι R} {v : Option R}
  {le : Option R → Option R → Prop}

@[simp] theorem visible_put : (x.put m i r).visible i = some r := by
  cases m
  · exact visible_write
  · exact visible_of_unlocked rfl

omit [DecidableEq ι] in
theorem lock_put (h : (x.put m i r).lock = some (j, v)) : j = i ∧ v = some r ∧ m = .tx := by
  cases m
  · cases h
    exact ⟨rfl, rfl, rfl⟩
  · cases h

theorem Move.put (h : x.freeFor i = true) : Move i x (x.put m i r) := by
  cases m
  · exact .write h _
  · exact .autocommit h _

theorem version_of_visible (h : x.visible i = some r) : x.Version r := by
  rcases visible_cases i x with hi | hc
  · exact Or.inr ⟨i, by rw [hi, h]⟩
  · exact Or.inl (hc ▸ h)

omit [DecidableEq ι] in
theorem version_put {r' : R} (h : (x.put m i r).Version r') : r' = r ∨ x.Version r' := by
  cases m with
  | tx =>
    rcases h with hc | ⟨j, hl⟩
    · exact Or.inr (Or.inl hc)
    · cases hl
      exact Or.inl rfl
  | auto =>
    rcases h with hc | ⟨j, hl⟩
    · cases hc
      exact Or.inl rfl
    · cases hl

theorem version_commit (h : (x.commit i).Version r) : x.Version r := by
  rcases h with hc | ⟨j, hl⟩
  · rw [commit_committed] at hc
    exact version_of_visible hc
  · exact Or.inr ⟨j, (lock_of_commit hl).2⟩

theorem version_rollback (h : (x.rollback i).Version r) : x.Version r := by
  rcases h with hc | ⟨j, hl⟩
  · rw [rollback_committed] at hc
    exact Or.inl hc
  · exact Or.inr ⟨j, (lock_of_rollback hl).2⟩

/-- What a process sees is above the published version. -/
theorem Ordered.visible (hrefl : ∀ v, le v v) (h : x.Ordered le) : le x.committed (x.visible i) := by
  rcases visible_cases i x with hi | hc
  · exact h _ _ hi
  · rw [hc]
    exact hrefl _

theorem Ordered.put (hrefl : ∀ v, le v v) (htrans : ∀ u v w, le u v → le v w → le u w)
    (h : x.Ordered le) (hr : le (x.visible i) (some r)) : (x.put m i r).Ordered le := by
  intro j v hj
  obtain ⟨rfl, rfl, rfl⟩ := lock_put hj
  exact htrans x.committed _ _ (h.visible hrefl) hr

theorem Ordered.commit (h : x.Ordered le) : (x.commit i).Ordered le := by
  intro j v hj
  obtain ⟨hne, hx⟩ := lock_of_commit hj
  rw [commit_of_other hx hne]
  exact h j v hx

theorem Ordered.rollback (h : x.Ordered le) : (x.rollback i).Ordered le := by
  intro j v hj
  rw [rollback_committed]
  exact h j v (lock_of_rollback hj).2

theorem Ordered.le_put (hrefl : ∀ v, le v v) (htrans : ∀ u v w, le u v → le v w → le u w)
    (h : x.Ordered le) (hr : le (x.visible i) (some r)) : le x.committed (x.put m i r).committed := by
  cases m
  · exact hrefl _
  · exact htrans _ _ _ (h.visible hrefl) hr

theorem Ordered.le_commit (hrefl : ∀ v, le v v) (h : x.Ordered le) :
    le x.committed (x.commit i).committed := by
  rw [commit_committed]
  exact h.visible hrefl

end Slot

/-! ### Statements -/

namespace Table

variable [DecidableEq K]

/-- **A statement on one row**: wait until nobody else holds the row, answer from its
latest version, and put a new one over it if there is one to put. -/
def modify (m : Mode) (i : ι) (k : K) (f : Option R → β × Option R) (t : Table ι K R) :
    Option (β × Table ι K R) :=
  if (t.slot k).admits m i then
    match f (t.row i k) with
    | (b, some r) => some (b, t.put k ((t.slot k).put m i r))
    | (b, none) => some (b, t)
  else none

/-- **A statement that skips a locked row**, where another one would wait for it. -/
def skipLocked (m : Mode) (i : ι) (k : K) (f : Option R → Option β × Option R)
    (t : Table ι K R) : Option (Option β × Table ι K R) :=
  if (t.slot k).admits m i then t.modify m i k f else some (none, t)

/-- **A `DELETE … WHERE` on one row**, which answers whether there was one to delete. -/
def remove (m : Mode) (i : ι) (k : K) (p : R → Bool) (t : Table ι K R) :
    Option (Bool × Table ι K R) :=
  if (t.slot k).admits m i then
    if (t.row i k).any p then some (true, t.put k ((t.slot k).erase m i)) else some (false, t)
  else none

omit [DecidableEq ι] [DecidableEq K] in
/-- The action of an `UPDATE … WHERE`: `f` answers, and gives the new row, when the
row is there and the condition holds. -/
def updating (f : R → Option (β × R)) : Option R → Option β × Option R
  | some r => match f r with
    | some (b, r') => (some b, some r')
    | none => (none, none)
  | none => (none, none)

omit [DecidableEq ι] [DecidableEq K] in
/-- The action of an `UPDATE … WHERE p` that is refused when the new row may not be stored; it
answers then that it was, and else whether there was a row. -/
def checking (p : R → Bool) (f : R → Option R) : Option R → Option Bool × Option R
  | some r =>
    if p r then
      match f r with
      | some r' => (some true, some r')
      | none => (none, none)
    else (some false, none)
  | none => (some false, none)

omit [DecidableEq ι] [DecidableEq K] in
/-- The action of an `INSERT`, which is refused when the identifier is taken. -/
def inserting (r : R) : Option R → Bool × Option R
  | none => (true, some r)
  | some _ => (false, none)

variable {m : Mode} {i : ι} {k l : K} {f : Option R → β × Option R} {t t' : Table ι K R} {b : β}
  {r : R} {P : K → R → Prop} {le : Option R → Option R → Prop}

/-- **What a statement on one row can have done**: nothing, or put the version its
action gives. -/
theorem modify_cases (h : t.modify m i k f = some (b, t')) :
    (t.slot k).freeFor i = true ∧ b = (f (t.row i k)).1 ∧
      ((f (t.row i k)).2 = none ∧ t' = t ∨
        ∃ r, (f (t.row i k)).2 = some r ∧ t' = t.put k ((t.slot k).put m i r)) := by
  rw [modify] at h
  split at h
  · rename_i hadmits
    refine ⟨Slot.freeFor_of_admits hadmits, ?_⟩
    rcases hf : f (t.row i k) with ⟨b', _ | r⟩
    · rw [hf] at h
      cases h
      exact ⟨rfl, Or.inl ⟨rfl, rfl⟩⟩
    · rw [hf] at h
      cases h
      exact ⟨rfl, Or.inr ⟨r, rfl, rfl⟩⟩
  · cases h

/-- A statement on its own finds its row unlocked. -/
theorem unlocked_of_auto (h : t.modify .auto i k f = some (b, t')) : (t.slot k).lock = none := by
  rw [modify] at h
  split at h
  · rename_i hadmits
    exact Option.isNone_iff_eq_none.mp hadmits
  · cases h

/-- A statement whose action gives a version puts it over the row. -/
theorem slot_modify (h : t.modify m i k f = some (b, t')) (hr : (f (t.row i k)).2 = some r) :
    t'.slot k = (t.slot k).put m i r := by
  obtain ⟨-, -, ⟨hnone, -⟩ | ⟨r', hr', rfl⟩⟩ := modify_cases h
  · rw [hr] at hnone
    cases hnone
  · rw [hr] at hr'
    cases hr'
    exact slot_put_self

/-- A statement on one row leaves the others alone. -/
theorem slot_modify_of_ne (h : t.modify m i k f = some (b, t')) (hne : l ≠ k) :
    t'.slot l = t.slot l := by
  obtain ⟨-, -, ⟨-, rfl⟩ | ⟨r, -, rfl⟩⟩ := modify_cases h
  · rfl
  · exact slot_put_of_ne hne

/-- A statement of an open transaction publishes nothing. -/
theorem committed_modify (h : t.modify .tx i k f = some (b, t')) (l : K) :
    (t'.slot l).committed = (t.slot l).committed := by
  obtain ⟨-, -, ⟨-, rfl⟩ | ⟨r, -, rfl⟩⟩ := modify_cases h
  · rfl
  · by_cases hl : l = k
    · subst hl
      rw [slot_put_self]
      rfl
    · rw [slot_put_of_ne hl]

/-- What a process holds, it holds after a statement of its open transaction. -/
theorem held_modify (h : t.modify .tx i k f = some (b, t')) {l : K} {v : Option R}
    (hl : (t.slot l).lock = some (i, v)) : ∃ v', (t'.slot l).lock = some (i, v') := by
  obtain ⟨-, -, ⟨-, rfl⟩ | ⟨r, -, rfl⟩⟩ := modify_cases h
  · exact ⟨v, hl⟩
  · by_cases hlk : l = k
    · subst hlk
      rw [slot_put_self]
      exact ⟨some r, rfl⟩
    · rw [slot_put_of_ne hlk]
      exact ⟨v, hl⟩

/-- A version a process holds after a statement is the one it has just written, or one it
held before. -/
theorem lock_modify (h : t.modify m i k f = some (b, t')) {l : K} {v : Option R}
    (hl : (t'.slot l).lock = some (i, v)) :
    (t.slot l).lock = some (i, v) ∨ l = k ∧ ∃ r, (f (t.row i k)).2 = some r ∧ v = some r := by
  obtain ⟨-, -, ⟨-, rfl⟩ | ⟨r, hr, rfl⟩⟩ := modify_cases h
  · exact Or.inl hl
  · by_cases hlk : l = k
    · subst hlk
      rw [slot_put_self] at hl
      exact Or.inr ⟨rfl, r, hr, (Slot.lock_put hl).2.1⟩
    · rw [slot_put_of_ne hlk] at hl
      exact Or.inl hl

/-- A statement on its own leaves nothing held. -/
theorem lock_modify_auto (h : t.modify .auto i k f = some (b, t')) {l : K} {j : ι} {v : Option R}
    (hl : (t'.slot l).lock = some (j, v)) : (t.slot l).lock = some (j, v) := by
  obtain ⟨-, -, ⟨-, rfl⟩ | ⟨r, -, rfl⟩⟩ := modify_cases h
  · exact hl
  · by_cases hlk : l = k
    · subst hlk
      rw [slot_put_self] at hl
      cases hl
    · rw [slot_put_of_ne hlk] at hl
      exact hl

/-- **What a delete finds**: nothing, or a row, which it erases. -/
theorem remove_cases {p : R → Bool} {b : Bool} (h : t.remove m i k p = some (b, t')) :
    (t.slot k).freeFor i = true ∧
      (b = false ∧ (t.row i k).any p = false ∧ t' = t ∨
        b = true ∧ (t.row i k).any p = true ∧ t' = t.put k ((t.slot k).erase m i)) := by
  rw [remove] at h
  split at h
  · rename_i hadmits
    refine ⟨Slot.freeFor_of_admits hadmits, ?_⟩
    split at h
    · rename_i hany
      cases h
      exact Or.inr ⟨rfl, hany, rfl⟩
    · rename_i hany
      cases h
      exact Or.inl ⟨rfl, by simpa using hany, rfl⟩
  · cases h

/-- A delete of an open transaction publishes nothing. -/
theorem committed_remove {p : R → Bool} {b : Bool} (h : t.remove .tx i k p = some (b, t')) (l : K) :
    (t'.slot l).committed = (t.slot l).committed := by
  obtain ⟨-, ⟨-, -, rfl⟩ | ⟨-, -, rfl⟩⟩ := remove_cases h
  · rfl
  · by_cases hl : l = k
    · subst hl
      rw [slot_put_self]
      rfl
    · rw [slot_put_of_ne hl]

omit [DecidableEq ι] [DecidableEq K] in
theorem updating_cases {f : R → Option (β × R)} {o : Option R} {v : R}
    (h : (updating f o).2 = some v) : ∃ r b, o = some r ∧ f r = some (b, v) := by
  rcases o with _ | r
  · cases h
  · rcases hf : f r with _ | ⟨b, r'⟩
    · simp [updating, hf] at h
    · simp only [updating, hf, Option.some.injEq] at h
      exact ⟨r, b, rfl, by rw [hf, h]⟩

omit [DecidableEq ι] [DecidableEq K] in
theorem updating_answer {f : R → Option (β × R)} {o : Option R} {b : β}
    (h : (updating f o).1 = some b) :
    ∃ r r', o = some r ∧ f r = some (b, r') ∧ (updating f o).2 = some r' := by
  rcases o with _ | r
  · cases h
  · rcases hf : f r with _ | ⟨b', r'⟩
    · simp [updating, hf] at h
    · simp only [updating, hf, Option.some.injEq] at h
      exact ⟨r, r', rfl, by rw [hf, h], by simp [updating, hf]⟩

omit [DecidableEq ι] [DecidableEq K] in
theorem checking_cases {p : R → Bool} {f : R → Option R} {o : Option R} {v : R}
    (h : (checking p f o).2 = some v) : ∃ r, o = some r ∧ p r = true ∧ f r = some v := by
  rcases o with _ | r
  · cases h
  · rw [checking] at h
    split at h
    · rename_i hp
      rcases hf : f r with _ | r'
      · simp [hf] at h
      · simp only [hf, Option.some.injEq] at h
        exact ⟨r, rfl, hp, by rw [hf, h]⟩
    · cases h

omit [DecidableEq ι] [DecidableEq K] in
theorem inserting_cases {o : Option R} {v : R} (h : (inserting r o).2 = some v) :
    o = none ∧ v = r := by
  rcases o with _ | s
  · cases h
    exact ⟨rfl, rfl⟩
  · cases h

/-! ### The effect of one query -/

/-- **What one query of process `i` can do to a table**: nothing, put over one row a
version that `A` allows there, or end the transaction. -/
inductive Effect (A : K → Option R → R → Prop) (i : ι) : Table ι K R → Table ι K R → Prop
  /-- The table is left alone. -/
  | keep (t : Table ι K R) : Effect A i t t
  /-- A version is put over a row nobody else holds. -/
  | put {t : Table ι K R} {k : K} {r : R} (m : Mode) (hfree : (t.slot k).freeFor i = true)
      (hA : A k (t.row i k) r) : Effect A i t (t.put k ((t.slot k).put m i r))
  /-- The transaction commits. -/
  | commit (t : Table ι K R) : Effect A i t (t.commit i)
  /-- The transaction rolls back. -/
  | rollback (t : Table ι K R) : Effect A i t (t.rollback i)

variable {A : K → Option R → R → Prop}

theorem effect_of_modify (h : t.modify m i k f = some (b, t'))
    (hf : ∀ r, (f (t.row i k)).2 = some r → A k (t.row i k) r) : Effect A i t t' := by
  obtain ⟨hfree, -, ⟨-, rfl⟩ | ⟨r, hr, rfl⟩⟩ := modify_cases h
  · exact .keep _
  · exact .put m hfree (hf r hr)

theorem skipLocked_cases {f : Option R → Option β × Option R} {b : Option β}
    (h : t.skipLocked m i k f = some (b, t')) :
    t.modify m i k f = some (b, t') ∨ b = none ∧ t' = t := by
  rw [skipLocked] at h
  split at h
  · exact Or.inl h
  · cases h
    exact Or.inr ⟨rfl, rfl⟩

theorem Effect.moves (h : Effect A i t t') : Moves i t t' := by
  cases h with
  | keep => exact .refl i _
  | put m hfree => exact moves_put (.put hfree)
  | commit => exact moves_commit i _
  | rollback => exact moves_rollback i _

theorem Effect.mono {B : K → Option R → R → Prop} (h : Effect A i t t')
    (hAB : ∀ k r, A k (t.row i k) r → B k (t.row i k) r) : Effect B i t t' := by
  cases h with
  | keep => exact .keep _
  | put m hfree hA => exact .put m hfree (hAB _ _ hA)
  | commit => exact .commit _
  | rollback => exact .rollback _

/-! ### What every version satisfies -/

omit [DecidableEq ι] [DecidableEq K] in
/-- Every version of every row, published or not, satisfies `P`. -/
def Holds (P : K → R → Prop) (t : Table ι K R) : Prop := ∀ k r, (t.slot k).Version r → P k r

omit [DecidableEq ι] [DecidableEq K] in
theorem Holds.committed (h : t.Holds P) (hk : (t.slot k).committed = some r) : P k r :=
  h k r (Or.inl hk)

omit [DecidableEq K] in
theorem Holds.row (h : t.Holds P) (hk : t.row i k = some r) : P k r :=
  h k r (Slot.version_of_visible hk)

/-- **What every version satisfies**, it still satisfies after a query whose new
versions satisfy it. -/
theorem Effect.holds (he : Effect A i t t') (h : t.Holds P)
    (hA : ∀ k r, A k (t.row i k) r → P k r) : t'.Holds P := by
  cases he with
  | keep => exact h
  | @put k r m hfree hr =>
    intro l r' hl
    rcases eq_or_ne l k with rfl | hne
    · rw [slot_put_self] at hl
      rcases Slot.version_put hl with rfl | hold
      · exact hA _ _ hr
      · exact h _ _ hold
    · rw [slot_put_of_ne hne] at hl
      exact h _ _ hl
  | commit => exact fun l r hl => h l r (Slot.version_commit hl)
  | rollback => exact fun l r hl => h l r (Slot.version_rollback hl)

/-! ### Versions that only grow -/

omit [DecidableEq ι] [DecidableEq K] in
/-- The version over each row is above the published one. -/
def Ordered (le : Option R → Option R → Prop) (t : Table ι K R) : Prop :=
  ∀ k, (t.slot k).Ordered le

omit [DecidableEq ι] [DecidableEq K] in
/-- Rows that nobody writes have no version over them. -/
theorem ordered_of_unlocked {le : Option R → Option R → Prop} (h : ∀ k, (t.slot k).lock = none) :
    t.Ordered le := by
  intro k j v hlock
  rw [h k] at hlock
  cases hlock

omit [DecidableEq ι] [DecidableEq K] in
/-- What snapshots see has only grown. -/
def Grown (le : Option R → Option R → Prop) (t t' : Table ι K R) : Prop :=
  ∀ k, le (t.slot k).committed (t'.slot k).committed

/-- **What snapshots see only grows**, under queries whose new versions are above what
they are put over. -/
theorem Effect.ordered (he : Effect A i t t') (hrefl : ∀ v, le v v)
    (htrans : ∀ u v w, le u v → le v w → le u w) (h : t.Ordered le)
    (hA : ∀ k r, A k (t.row i k) r → le (t.row i k) (some r)) :
    t'.Ordered le ∧ Grown le t t' := by
  cases he with
  | keep => exact ⟨h, fun l => hrefl _⟩
  | @put k r m hfree hr =>
    refine ⟨fun l => ?_, fun l => ?_⟩ <;> rcases eq_or_ne l k with rfl | hne
    · rw [slot_put_self]
      exact (h l).put hrefl htrans (hA l r hr)
    · rw [slot_put_of_ne hne]
      exact h l
    · rw [slot_put_self]
      exact (h l).le_put hrefl htrans (hA l r hr)
    · rw [slot_put_of_ne hne]
      exact hrefl _
  | commit => exact ⟨fun l => (h l).commit, fun l => (h l).le_commit hrefl⟩
  | rollback =>
    refine ⟨fun l => (h l).rollback, fun l => ?_⟩
    rw [slot_rollback, Slot.rollback_committed]
    exact hrefl _

end Table

end ReadCommitted
