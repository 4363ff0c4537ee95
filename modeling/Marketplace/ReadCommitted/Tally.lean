import Marketplace.ReadCommitted.Statements
import Mathlib.Data.List.Count

/-!
# How many rows are published

A cap on the rows of some kind is kept by the statements that publish one more only below it.
What a statement on one row can add to the count is one
(`ReadCommitted.Table.tally_put_le`), and a statement or a commit that publishes nothing of the
kind adds nothing.

A statement that counts what is published does not see what is on its way, so it is the rows of
both kinds that it must keep below the cap (`ReadCommitted.Table.potential`): a commit adds
nothing to these.
-/

namespace ReadCommitted

/-- A row that satisfies `p` is published, or on its way. -/
def Slot.mayHave {ι R : Type} (p : R → Bool) (x : Slot ι R) : Bool :=
  x.committed.any p || x.lock.any fun l => l.2.any p

namespace Table

variable {ι K R : Type} [DecidableEq K] {t : Table ι K R} {k : K} {x : Slot ι R} {p : R → Bool}

/-! ### Slots of a kind -/

/-- How many slots are of the kind `q`. -/
def count (q : Slot ι R → Bool) (t : Table ι K R) : ℕ := t.keys.countP fun k => q (t.slot k)

/-- **How many published rows satisfy `p`.** -/
def tally (p : R → Bool) (t : Table ι K R) : ℕ :=
  t.keys.countP fun k => (t.slot k).committed.any p

/-- **How many rows that satisfy `p` are published, or on their way.** -/
def potential (p : R → Bool) (t : Table ι K R) : ℕ := t.count (Slot.mayHave p)

section Count

variable {q : Slot ι R → Bool}

/-- The count over the identifiers of a table in which row `k` has been put. -/
theorem countP_keys_put (q : K → Bool) (hq : k ∉ t.keys → q k = false) :
    (t.put k x).keys.countP q = t.keys.countP q := by
  show (if k ∈ t.keys then t.keys else t.keys ++ [k]).countP q = _
  split
  · rfl
  · rename_i hk
    rw [List.countP_append, List.countP_singleton, hq hk]
    rfl

/-- The count over the identifiers of the new table does not see those that have not been used. -/
theorem countP_put (hq : q {} = false) :
    (t.put k x).keys.countP (fun l => q (t.slot l)) = t.count q :=
  countP_keys_put (fun l => q (t.slot l)) fun hk => by rw [t.empty_of_not_mem k hk, hq]

/-- **A statement on one row adds one at most.** -/
theorem count_put_le (hq : q {} = false) : (t.put k x).count q ≤ t.count q + 1 := by
  have hone : ∀ ks : List K, ks.Nodup → ∀ q q' : K → Bool, (∀ l, l ≠ k → q' l = q l) →
      ks.countP q' ≤ ks.countP q + 1 := by
    intro ks hks q q' hq
    induction ks with
    | nil => exact Nat.zero_le _
    | cons l ks ih =>
      obtain ⟨hl, hks⟩ := List.nodup_cons.mp hks
      rw [List.countP_cons, List.countP_cons]
      rcases eq_or_ne l k with rfl | hne
      · -- the other identifiers are not `k`
        have hrest : ks.countP q' = ks.countP q := by
          refine List.countP_congr fun m hm => ?_
          rw [hq m fun hml => hl (hml ▸ hm)]
        rw [hrest]
        split <;> omega
      · have := ih hks
        rw [hq l hne]
        omega
  have hput : (t.put k x).count q ≤ (t.put k x).keys.countP (fun l => q (t.slot l)) + 1 := by
    refine hone _ (t.put k x).nodup _ _ fun l hl => ?_
    rw [slot_put_of_ne hl]
  rwa [countP_put hq] at hput

/-- A statement that makes no slot of the kind does not add to the count. -/
theorem count_put_le_of (hq : q {} = false) (h : q x = true → q (t.slot k) = true) :
    (t.put k x).count q ≤ t.count q := by
  have hput : (t.put k x).count q ≤ (t.put k x).keys.countP fun l => q (t.slot l) := by
    refine List.countP_mono_left fun l _ hl => ?_
    rcases eq_or_ne l k with rfl | hne
    · rw [slot_put_self] at hl
      exact h hl
    · rwa [slot_put_of_ne hne] at hl
  rwa [countP_put hq] at hput

end Count

/-! ### Published rows -/

omit [DecidableEq K] in
theorem tally_rollback [DecidableEq ι] {i : ι} : (t.rollback i).tally p = t.tally p := by
  refine List.countP_congr fun l _ => ?_
  rw [slot_rollback, Slot.rollback_committed]

/-! ### Rows that may be published -/

omit [DecidableEq K] in
theorem tally_le_potential : t.tally p ≤ t.potential p := by
  refine List.countP_mono_left fun l _ hl => ?_
  rw [Slot.mayHave, hl]
  rfl

/-- A statement on one row adds one at most. -/
theorem potential_put_le : (t.put k x).potential p ≤ t.potential p + 1 := count_put_le rfl

/-- A statement that brings nothing of the kind does not add to the count. -/
theorem potential_put_le_of (h : x.mayHave p = true → (t.slot k).mayHave p = true) :
    (t.put k x).potential p ≤ t.potential p :=
  count_put_le_of rfl h

omit [DecidableEq K] in
/-- **A commit adds nothing to what may be published.** -/
theorem potential_commit_le [DecidableEq ι] {i : ι} : (t.commit i).potential p ≤ t.potential p := by
  refine List.countP_mono_left fun l _ hl => ?_
  rcases hlock : (t.slot l).lock with _ | ⟨j, v⟩
  · rwa [slot_commit, Slot.commit_of_unlocked hlock] at hl
  · rcases eq_or_ne j i with rfl | hne
    · rw [slot_commit, Slot.commit_of_held hlock, Slot.mayHave, Option.any_none, Bool.or_false] at hl
      rw [Slot.mayHave, hlock, Option.any_some, hl, Bool.or_true]
    · rwa [slot_commit, Slot.commit_of_other hlock hne] at hl

omit [DecidableEq K] in
theorem potential_rollback_le [DecidableEq ι] {i : ι} :
    (t.rollback i).potential p ≤ t.potential p := by
  refine List.countP_mono_left fun l _ hl => ?_
  rcases hlock : (t.slot l).lock with _ | ⟨j, v⟩
  · rwa [slot_rollback, Slot.rollback_of_unlocked hlock] at hl
  · rcases eq_or_ne j i with rfl | hne
    · rw [slot_rollback, Slot.rollback_of_held hlock, Slot.mayHave, Option.any_none,
        Bool.or_false] at hl
      rw [Slot.mayHave, hl]
      rfl
    · rwa [slot_rollback, Slot.rollback_of_other hlock hne] at hl

end Table

end ReadCommitted
