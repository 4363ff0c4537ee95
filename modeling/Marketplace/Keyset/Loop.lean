import Mathlib.Data.List.Sort
import Mathlib.Order.Lattice

/-!
# Loops over pages of keys

A loop works on the first keys after the last one that it has worked on, until there are none
(`Keyset.after`). In a list of keys in their order, what comes after the last of some of them is the
rest (`Keyset.after_append`), whatever the loop has written in between, so long as it leaves the keys
alone.
-/

namespace Keyset

variable {κ : Type*} [LinearOrder κ]

/-- Keys, in their order. -/
def inOrder (keys : List κ) : List κ := keys.insertionSort (· ≤ ·)

/-- **The first keys after one**, or the first of all. -/
def after (limit : ℕ) (last : Option κ) (keys : List κ) : List κ :=
  (keys.filter fun k => last.all fun l => l < k).take limit

theorem perm_inOrder (keys : List κ) : (inOrder keys).Perm keys := List.perm_insertionSort _ _

theorem mem_inOrder {keys : List κ} {k : κ} : k ∈ inOrder keys ↔ k ∈ keys :=
  (perm_inOrder keys).mem_iff

/-- Keys that are each there once are in their strict order. -/
theorem pairwise_inOrder {keys : List κ} (h : keys.Nodup) : (inOrder keys).Pairwise (· < ·) := by
  have hle : (inOrder keys).Pairwise (· ≤ ·) := List.pairwise_insertionSort _ _
  have hne : (inOrder keys).Pairwise (· ≠ ·) := (perm_inOrder keys).nodup_iff.mpr h
  exact (hle.and hne).imp fun h => lt_of_le_of_ne h.1 h.2

/-- Some of the keys, in their order. -/
theorem inOrder_filter (p : κ → Bool) (keys : List κ) :
    inOrder (keys.filter p) = (inOrder keys).filter p := by
  refine List.Perm.eq_of_pairwise' (r := (· ≤ ·)) ?_ ?_ ?_
  · exact List.pairwise_insertionSort _ _
  · exact (List.pairwise_insertionSort _ _).filter _
  · exact (perm_inOrder _).trans ((perm_inOrder keys).symm.filter _)

/-- The same keys, in their order. -/
theorem inOrder_congr {keys keys' : List κ} (h : keys.Perm keys') : inOrder keys = inOrder keys' :=
  List.Perm.eq_of_pairwise' (r := (· ≤ ·)) (List.pairwise_insertionSort _ _)
    (List.pairwise_insertionSort _ _) ((perm_inOrder _).trans (h.trans (perm_inOrder _).symm))

/-- **After the last of some keys come the rest of them.** -/
theorem after_append {done rest : List κ} (h : (done ++ rest).Pairwise (· < ·)) (limit : ℕ) :
    after limit done.getLast? (done ++ rest) = rest.take limit := by
  rw [after]
  rcases List.eq_nil_or_concat' done with rfl | ⟨front, last, rfl⟩
  · simp
  · obtain ⟨hdone, -, hlt⟩ := List.pairwise_append.mp h
    obtain ⟨-, -, hbefore⟩ := List.pairwise_append.mp hdone
    have hlast : (front ++ [last]).getLast? = some last := List.getLast?_concat
    have hfront : (front ++ [last]).filter (fun k => decide (last < k)) = [] := by
      rw [List.filter_eq_nil_iff]
      intro k hk
      rw [decide_eq_true_iff]
      rcases List.mem_append.mp hk with hk | hk
      · exact (hbefore k hk last (List.mem_singleton_self _)).asymm
      · rw [List.mem_singleton.mp hk]
        exact lt_irrefl last
    have hrest : rest.filter (fun k => decide (last < k)) = rest := by
      rw [List.filter_eq_self]
      exact fun k hk =>
        decide_eq_true (hlt last (List.mem_append_right _ (List.mem_singleton_self _)) k hk)
    rw [hlast]
    simp only [Option.all_some]
    rw [List.filter_append, hfront, hrest, List.nil_append]

end Keyset
