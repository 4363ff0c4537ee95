import Marketplace.ReadCommitted.Alone
import Marketplace.ReadCommitted.Lasting

/-!
# Tables as functions

To a process that nobody is in the way of, a table is the rows that it sees: a function from
identifiers to rows (`ReadCommitted.Table.seen`), which a statement changes at one identifier at
most, and beside it the rows that are published (`ReadCommitted.Table.shown`), which a statement of
an open transaction leaves as they are. A commit makes the second what the first is, and a rollback
the first what the second is.

Being in nobody's way (`ReadCommitted.Table.Admits`) is, in a transaction, that nobody else holds a
row and, outside of one, that nobody holds one at all. A statement then never waits, and leaves the
table so.
-/

namespace ReadCommitted

variable {ι K R β : Type}

/-- The row with a version, or nothing, put over it. -/
def Slot.place (m : Mode) (i : ι) (v : Option R) (x : Slot ι R) : Slot ι R :=
  match m with
  | .tx => x.write i v
  | .auto => { committed := v }

namespace Table

/-- A function with a new value at one place, if there is one to put there. -/
def overlay [DecidableEq K] (g : K → Option R) (k : K) (v : Option R) : K → Option R :=
  v.elim g fun r => Function.update g k (some r)

/-- What is published of a table. -/
def shown (t : Table ι K R) : K → Option R := fun k => (t.slot k).committed

variable [DecidableEq ι]

/-- What process `i` sees of a table. -/
def seen (i : ι) (t : Table ι K R) : K → Option R := fun k => t.row i k

/-- **Nobody is in the way of a statement.** -/
def Admits (m : Mode) (i : ι) (t : Table ι K R) : Prop := ∀ k, (t.slot k).admits m i = true

variable {m : Mode} {i j : ι} {k : K} {t t' : Table ι K R} {v : Option R} {r : R} {b : β}
  {f : Option R → β × Option R}

theorem Admits.own (h : t.Admits m i) : t.Own i := fun k => Slot.freeFor_of_admits (h k)

theorem Admits.unlocked (h : t.Admits .auto i) (k : K) : (t.slot k).lock = none :=
  Option.isNone_iff_eq_none.mp (h k)

theorem admits_of_unlocked (h : ∀ k, (t.slot k).lock = none) : t.Admits m i := by
  cases m with
  | tx => exact own_of_unlocked h
  | auto => exact fun k => Option.isNone_iff_eq_none.mpr (h k)

/-- Outside of transactions, everybody sees what is published. -/
theorem Admits.seen_eq (h : t.Admits .auto i) : t.seen j = t.shown := by
  funext k
  exact Slot.visible_of_unlocked (h.unlocked k)

/-! ### The end of a transaction -/

theorem Admits.commit (h : t.Admits m i) (n : Mode) (j : ι) : (t.commit i).Admits n j :=
  admits_of_unlocked fun k => by rw [h.own.slot_commit]

theorem Admits.shown_commit (h : t.Admits m i) : (t.commit i).shown = t.seen i := by
  funext k
  rw [shown, h.own.slot_commit, seen]

theorem Admits.rollback (h : t.Admits m i) (n : Mode) (j : ι) : (t.rollback i).Admits n j := by
  refine admits_of_unlocked fun k => ?_
  rw [slot_rollback]
  rcases Slot.lock_eq_of_freeFor (h.own k) with hnone | ⟨v, hv⟩
  · rw [Slot.rollback_of_unlocked hnone, hnone]
  · rw [Slot.rollback_of_held hv]

theorem shown_rollback : (t.rollback i).shown = t.shown := by
  funext k
  exact Slot.rollback_committed

/-! ### What statements do -/

section

variable [DecidableEq K]

/-- **What a statement that does not end the transaction can do to a table**: nothing, or put a
version over a row that it need not wait for, or delete such a row. -/
inductive Places (m : Mode) (i : ι) : Table ι K R → Table ι K R → Prop
  /-- The table is left alone. -/
  | keep (t : Table ι K R) : Places m i t t
  /-- A version, or nothing, is put over a row. -/
  | place {t : Table ι K R} (k : K) (v : Option R) (h : (t.slot k).admits m i = true) :
      Places m i t (t.put k ((t.slot k).place m i v))

theorem places_of_modify (h : t.modify m i k f = some (b, t')) : t.Places m i t' := by
  have hadmits : (t.slot k).admits m i = true := by
    by_contra hnot
    rw [modify, if_neg hnot] at h
    cases h
  obtain ⟨-, -, ⟨-, rfl⟩ | ⟨r, -, rfl⟩⟩ := modify_cases h
  · exact .keep _
  · cases m <;> exact .place k (some r) hadmits

theorem places_of_skipLocked {f : Option R → Option β × Option R} {b : Option β}
    (h : t.skipLocked m i k f = some (b, t')) : t.Places m i t' := by
  rcases skipLocked_cases h with h | ⟨-, rfl⟩
  · exact places_of_modify h
  · exact .keep _

theorem places_of_modifyUnique {clash : R → R → Bool} {b : Option β}
    (h : t.modifyUnique m i k clash f = some (b, t')) : t.Places m i t' := by
  rcases modifyUnique_cases h with ⟨-, rfl⟩ | ⟨⟨b', -, hmod⟩, -⟩
  · exact .keep _
  · exact places_of_modify hmod

theorem places_of_remove {p : R → Bool} {b : Bool} (h : t.remove m i k p = some (b, t')) :
    t.Places m i t' := by
  have hadmits : (t.slot k).admits m i = true := by
    by_contra hnot
    rw [remove, if_neg hnot] at h
    cases h
  obtain ⟨-, ⟨-, -, rfl⟩ | ⟨-, -, rfl⟩⟩ := remove_cases h
  · exact .keep _
  · cases m <;> exact .place k none hadmits

theorem places_of_insertFresh {t t' : Table ι ℕ R} {clash : R → Bool} {o : Option ℕ}
    (h : t.insertFresh m i clash r = some (o, t')) : t.Places m i t' := by
  obtain ⟨⟨b, t₁⟩, hins, he⟩ := Option.map_eq_some_iff.mp h
  cases he
  rcases (insertUnique_cases hins).2 with ⟨-, rfl⟩ | ⟨hmod, -⟩
  · exact .keep _
  · exact places_of_modify hmod

/-- A statement leaves nobody in its own way. -/
theorem Places.admits (h : t.Places m i t') (ht : t.Admits m i) : t'.Admits m i := by
  cases h with
  | keep => exact ht
  | place k v hadmits =>
    intro l
    rcases eq_or_ne l k with rfl | hne
    · rw [slot_put_self]
      cases m with
      | tx =>
        have hfree : ((t.slot l).place .tx i v).freeFor i = true := by
          refine Slot.freeFor_iff.mpr fun j w hlock => ?_
          cases hlock
          rfl
        exact hfree
      | auto => rfl
    · rw [slot_put_of_ne hne]
      exact ht l

/-- **A statement of an open transaction publishes nothing.** -/
theorem Places.shown_eq (h : t.Places .tx i t') : t'.shown = t.shown := by
  cases h with
  | keep => rfl
  | place k v hadmits =>
    funext l
    rcases eq_or_ne l k with rfl | hne
    · rw [shown, slot_put_self]
      rfl
    · rw [shown, slot_put_of_ne hne]
      rfl

omit [DecidableEq ι] [DecidableEq K] in
@[simp] theorem place_some {x : Slot ι R} : x.place m i (some r) = x.put m i r := by
  cases m <;> rfl

omit [DecidableEq K] in
theorem visible_place {x : Slot ι R} : (x.place m i v).visible i = v := by
  cases m
  · exact Slot.visible_write
  · exact Slot.visible_of_unlocked rfl

theorem seen_place : (t.put k ((t.slot k).place m i v)).seen i = Function.update (t.seen i) k v := by
  funext l
  rcases eq_or_ne l k with rfl | hne
  · rw [Function.update_self, seen, row, slot_put_self, visible_place]
  · rw [Function.update_of_ne hne, seen, row, slot_put_of_ne hne]
    rfl

theorem seen_put_of_ne {x : Slot ι R} {l : K} (h : l ≠ k) :
    (t.put k x).seen i l = t.seen i l := by
  rw [seen, row, slot_put_of_ne h, seen, row]

/-- A statement on one row leaves the others as they are seen. -/
theorem seen_of_modify {f : Option R → β × Option R} (h : t.modify m i k f = some (b, t')) {l : K}
    (hl : l ≠ k) : t'.seen i l = t.seen i l := by
  obtain ⟨-, -, ⟨-, rfl⟩ | ⟨r, -, rfl⟩⟩ := modify_cases h
  · rfl
  · exact seen_put_of_ne hl

theorem seen_of_remove {p : R → Bool} {b : Bool} (h : t.remove m i k p = some (b, t')) {l : K}
    (hl : l ≠ k) : t'.seen i l = t.seen i l := by
  obtain ⟨-, ⟨-, -, rfl⟩ | ⟨-, -, rfl⟩⟩ := remove_cases h
  · rfl
  · exact seen_put_of_ne hl

/-- What the process sees after a statement that has put a version over a row, or has not. -/
theorem Written.seen {A : Mode → K → Option R → R → Prop} (h : t.Written A i t') :
    t'.seen i = t.seen i ∨ ∃ m k r, A m k (t.seen i k) r ∧
      t'.seen i = Function.update (t.seen i) k (some r) := by
  cases h with
  | keep => exact Or.inl rfl
  | put hfree hA =>
    refine Or.inr ⟨_, _, _, hA, ?_⟩
    rw [← place_some]
    exact seen_place

/-- **A statement on one row.** -/
theorem Admits.modify (h : t.Admits m i) (k : K) (f : Option R → β × Option R) :
    ∃ t', t.modify m i k f = some ((f (t.seen i k)).1, t') ∧
      t'.seen i = overlay (t.seen i) k (f (t.seen i k)).2 := by
  have hsome : ∀ r, (t.put k ((t.slot k).put m i r)).seen i =
      Function.update (t.seen i) k (some r) := by
    intro r
    rw [← place_some]
    exact seen_place
  rw [Table.modify, if_pos (h k)]
  rcases hf : f (t.row i k) with ⟨b, - | r⟩
  · exact ⟨t, by rw [seen, hf], by rw [seen, hf]; rfl⟩
  · exact ⟨_, by rw [seen, hf], by rw [hsome, seen, hf]; rfl⟩

/-- **A statement that deletes one row.** -/
theorem Admits.remove (h : t.Admits m i) (k : K) :
    ∃ t', t.remove m i k (fun _ => true) = some ((t.seen i k).isSome, t') ∧
      t'.seen i = Function.update (t.seen i) k none := by
  rw [Table.remove, if_pos (h k)]
  cases hrow : t.row i k with
  | none =>
    refine ⟨t, by rw [seen, hrow]; rfl, ?_⟩
    rw [← show t.seen i k = none from hrow, Function.update_eq_self]
  | some r =>
    refine ⟨_, by rw [seen, hrow]; rfl, ?_⟩
    have herase : (t.slot k).erase m i = (t.slot k).place m i none := by cases m <;> rfl
    rw [herase]
    exact seen_place

omit [DecidableEq K] in
/-- Nobody contests anything. -/
theorem Admits.contests_eq (h : t.Admits m i) (clash : R → Bool) (k : K) :
    contests m i clash (t.slot k) = false := by
  rw [contests]
  cases hlock : (t.slot k).lock with
  | none => rfl
  | some p =>
    cases m with
    | tx =>
      have hj : p.1 = i := Slot.freeFor_iff.mp (h k) p.1 p.2 hlock
      simp [hj]
    | auto =>
      rw [h.unlocked k] at hlock
      cases hlock

/-- **An update under a unique index**, when no other row clashes. -/
theorem Admits.modifyUnique (h : t.Admits m i) (k : K) (f : Option R → β × Option R)
    {clash : R → R → Bool}
    (hclash : ∀ l r r', l ≠ k → t.seen i l = some r → (f (t.seen i k)).2 = some r' →
      clash r' r = false) :
    ∃ t', t.modifyUnique m i k clash f = some (some (f (t.seen i k)).1, t') ∧
      t'.seen i = overlay (t.seen i) k (f (t.seen i k)).2 := by
  obtain ⟨t', hmod, hseen⟩ := h.modify k f
  refine ⟨t', ?_, hseen⟩
  rw [Table.modifyUnique, if_neg, if_neg, hmod]
  · rfl
  · intro hany
    obtain ⟨l, -, hl⟩ := List.any_eq_true.mp hany
    obtain ⟨hne, hl⟩ := Bool.and_eq_true_iff.mp hl
    obtain ⟨r, hr, hl⟩ := (Option.any_eq_true _ _).mp hl
    obtain ⟨r', hr', hl⟩ := (Option.any_eq_true _ _).mp hl
    rw [hclash l r r' (of_decide_eq_true hne) hr hr'] at hl
    cases hl
  · intro hany
    obtain ⟨l, -, hl⟩ := List.any_eq_true.mp hany
    rw [h.contests_eq, Bool.and_false] at hl
    cases hl

end

section Fresh

variable {t : Table ι ℕ R} {clash : R → Bool}

/-- **An insert that is refused.** -/
theorem Admits.insertFresh_refused (h : t.Admits m i) {r : R} {k : ℕ} {r' : R}
    (hk : t.seen i k = some r') (hclash : clash r' = true) :
    t.insertFresh m i clash r = some (none, t) := by
  rw [insertFresh, insertUnique, if_neg, if_pos]
  · rfl
  · have hmem : k ∈ t.keys := by
      by_contra hnot
      rw [seen, row, t.empty_of_not_mem k hnot] at hk
      cases hk
    refine List.any_eq_true.mpr ⟨k, hmem, ?_⟩
    rw [show t.row i k = some r' from hk, Option.any_some, hclash]
  · intro hany
    obtain ⟨l, -, hl⟩ := List.any_eq_true.mp hany
    rw [h.contests_eq] at hl
    cases hl

/-- **An insert that nothing is in the way of.** -/
theorem Admits.insertFresh_new (h : t.Admits m i) (r : R)
    (hclash : ∀ k r', t.seen i k = some r' → clash r' = false) :
    ∃ k t', t.insertFresh m i clash r = some (some k, t') ∧ t.seen i k = none ∧
      t'.seen i = Function.update (t.seen i) k (some r) := by
  have hnone : t.seen i t.fresh = none := by
    rw [seen, row, slot_fresh]
    rfl
  obtain ⟨t', hmod, hseen⟩ := h.modify t.fresh (inserting r)
  rw [hnone] at hmod hseen
  refine ⟨t.fresh, t', ?_, hnone, hseen⟩
  rw [insertFresh, insertUnique, if_neg, if_neg, hmod]
  · rfl
  · intro hany
    obtain ⟨l, -, hl⟩ := List.any_eq_true.mp hany
    obtain ⟨r', hr', hl⟩ := (Option.any_eq_true _ _).mp hl
    rw [hclash l r' hr'] at hl
    cases hl
  · intro hany
    obtain ⟨l, -, hl⟩ := List.any_eq_true.mp hany
    rw [h.contests_eq] at hl
    cases hl

end Fresh

end Table

end ReadCommitted
