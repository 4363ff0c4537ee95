import Mathlib.Order.Bounds.Basic
import Mathlib.Order.MinMax
import Mathlib.Tactic.Common

/-!
# The edit distance

An edit inserts, deletes or replaces one element of a list, at its head or further on
(`EditDistance.Edit`). The distance of two lists is the least number of edits that lead from one to
the other, and the recursion that compares their heads computes it
(`EditDistance.isLeast_distance`).

Edits can be undone, and can be made from the other end, so the distance is symmetric, and the
recursion that compares the last elements computes it too (`EditDistance.distance_concat`): this is
the one that a table of the distances of prefixes is filled by.
-/

namespace EditDistance

variable {α : Type*}

/-! ### Edits -/

/-- **One edit** of a list. -/
inductive Edit : List α → List α → Prop
  /-- An element is inserted. -/
  | insert (c : α) (a : List α) : Edit a (c :: a)
  /-- An element is deleted. -/
  | delete (c : α) (a : List α) : Edit (c :: a) a
  /-- An element is replaced. -/
  | substitute (c d : α) (a : List α) : Edit (c :: a) (d :: a)
  /-- The edit is further on. -/
  | skip (c : α) {a b : List α} (h : Edit a b) : Edit (c :: a) (c :: b)

/-- **Some edits**, one after another. -/
inductive Edits : ℕ → List α → List α → Prop
  /-- Nothing is edited. -/
  | refl (a : List α) : Edits 0 a a
  /-- One edit more. -/
  | step {n : ℕ} {a b c : List α} (h : Edit a b) (hs : Edits n b c) : Edits (n + 1) a c

variable {a b c x : List α} {m n : ℕ}

theorem Edit.symm (h : Edit a b) : Edit b a := by
  induction h with
  | insert c a => exact .delete c a
  | delete c a => exact .insert c a
  | substitute c d a => exact .substitute d c a
  | skip c _ ih => exact .skip c ih

/-- An edit in front of something. -/
theorem Edit.append_right (h : Edit a b) (x : List α) : Edit (a ++ x) (b ++ x) := by
  induction h with
  | insert c a => exact .insert c _
  | delete c a => exact .delete c _
  | substitute c d a => exact .substitute c d _
  | skip c _ ih => exact .skip c ih

/-- An edit behind something. -/
theorem Edit.append_left (h : Edit a b) (x : List α) : Edit (x ++ a) (x ++ b) := by
  induction x with
  | nil => exact h
  | cons c x ih => exact .skip c ih

theorem Edit.reverse (h : Edit a b) : Edit a.reverse b.reverse := by
  induction h with
  | insert c a =>
    rw [List.reverse_cons]
    simpa using (Edit.insert c []).append_left a.reverse
  | delete c a =>
    rw [List.reverse_cons]
    simpa using (Edit.delete c []).append_left a.reverse
  | substitute c d a =>
    rw [List.reverse_cons, List.reverse_cons]
    exact (Edit.substitute c d []).append_left a.reverse
  | skip c _ ih =>
    rw [List.reverse_cons, List.reverse_cons]
    exact ih.append_right [c]

namespace Edits

theorem single (h : Edit a b) : Edits 1 a b := .step h (.refl b)

theorem trans (h : Edits m a b) (h' : Edits n b c) : Edits (m + n) a c := by
  induction h with
  | refl a => rwa [Nat.zero_add]
  | step h _ ih =>
    rw [Nat.succ_add]
    exact .step h (ih h')

theorem symm (h : Edits n a b) : Edits n b a := by
  induction h with
  | refl a => exact .refl a
  | step h _ ih => exact ih.trans (.single h.symm)

theorem reverse (h : Edits n a b) : Edits n a.reverse b.reverse := by
  induction h with
  | refl a => exact .refl _
  | step h _ ih => exact .step h.reverse ih

/-- Edits further on. -/
theorem cons (d : α) (h : Edits n a b) : Edits n (d :: a) (d :: b) := by
  induction h with
  | refl a => exact .refl _
  | step h _ ih => exact .step (.skip d h) ih

/-- Everything is inserted. -/
theorem of_nil (b : List α) : Edits b.length [] b := by
  induction b with
  | nil => exact .refl []
  | cons d b ih => exact ih.trans (.single (.insert d b))

end Edits

/-! ### Alignments -/

/-- **An alignment** of two lists, with the number of elements in which it does not match: what
edits come to when they are read from the head on. -/
inductive Align : ℕ → List α → List α → Prop
  | nil : Align 0 [] []
  | insert {n : ℕ} {a b : List α} (d : α) (h : Align n a b) : Align (n + 1) a (d :: b)
  | delete {n : ℕ} {a b : List α} (c : α) (h : Align n a b) : Align (n + 1) (c :: a) b
  | substitute {n : ℕ} {a b : List α} (c d : α) (h : Align n a b) :
      Align (n + 1) (c :: a) (d :: b)
  | keep {n : ℕ} {a b : List α} (c : α) (h : Align n a b) : Align n (c :: a) (c :: b)

theorem Align.refl (a : List α) : Align 0 a a := by
  induction a with
  | nil => exact .nil
  | cons c a ih => exact .keep c ih

/-- **An edit before an alignment costs one more at most.** -/
theorem Align.of_edit (h : Edit a b) (hb : Align n b c) : ∃ m ≤ n + 1, Align m a c := by
  induction hb generalizing a with
  | nil =>
    cases h with
    | delete d => exact ⟨1, le_rfl, .delete d .nil⟩
  | @insert n b c d hb ih =>
    obtain ⟨m, hm, ha⟩ := ih h
    exact ⟨m + 1, Nat.succ_le_succ hm, .insert d ha⟩
  | @delete n b c e hb ih =>
    cases h with
    | insert => exact ⟨n, by omega, hb⟩
    | delete d => exact ⟨n + 2, by omega, .delete d (.delete e hb)⟩
    | substitute d => exact ⟨n + 1, by omega, .delete d hb⟩
    | skip _ h =>
      obtain ⟨m, hm, ha⟩ := ih h
      exact ⟨m + 1, Nat.succ_le_succ hm, .delete e ha⟩
  | @substitute n b c e f hb ih =>
    cases h with
    | insert => exact ⟨n + 1, by omega, .insert f hb⟩
    | delete d => exact ⟨n + 2, by omega, .delete d (.substitute e f hb)⟩
    | substitute d => exact ⟨n + 1, by omega, .substitute d f hb⟩
    | skip _ h =>
      obtain ⟨m, hm, ha⟩ := ih h
      exact ⟨m + 1, Nat.succ_le_succ hm, .substitute e f ha⟩
  | @keep n b c e hb ih =>
    cases h with
    | insert => exact ⟨n + 1, le_rfl, .insert e hb⟩
    | delete d => exact ⟨n + 1, le_rfl, .delete d (.keep e hb)⟩
    | substitute d => exact ⟨n + 1, le_rfl, .substitute d e hb⟩
    | skip _ h =>
      obtain ⟨m, hm, ha⟩ := ih h
      exact ⟨m, hm, .keep e ha⟩

/-- Edits are an alignment that costs no more. -/
theorem Edits.align (h : Edits n a b) : ∃ m ≤ n, Align m a b := by
  induction h with
  | refl a => exact ⟨0, le_rfl, .refl a⟩
  | step h _ ih =>
    obtain ⟨m, hm, ha⟩ := ih
    obtain ⟨m', hm', ha'⟩ := ha.of_edit h
    exact ⟨m', by omega, ha'⟩

/-! ### The distance -/

variable [DecidableEq α]

/-- What it costs to match two elements. -/
def cost (c d : α) : ℕ := if c = d then 0 else 1

/-- **The distance of two lists**, by their heads. -/
def distance : List α → List α → ℕ
  | [], b => b.length
  | a, [] => a.length
  | c :: a, d :: b =>
    min (min (distance a (d :: b) + 1) (distance (c :: a) b + 1)) (distance a b + cost c d)
termination_by a b => a.length + b.length

@[simp] theorem distance_nil_left (b : List α) : distance [] b = b.length := by
  rw [distance]

@[simp] theorem distance_nil_right (a : List α) : distance a [] = a.length := by
  cases a with
  | nil => rw [distance]
  | cons => rw [distance]; simp

theorem distance_cons_cons (c d : α) (a b : List α) : distance (c :: a) (d :: b) =
    min (min (distance a (d :: b) + 1) (distance (c :: a) b + 1)) (distance a b + cost c d) := by
  rw [distance]

/-- There are as many edits. -/
theorem edits_distance (a b : List α) : Edits (distance a b) a b := by
  induction a, b using distance.induct with
  | case1 b =>
    rw [distance_nil_left]
    exact .of_nil b
  | case2 a =>
    rw [distance_nil_right]
    exact (Edits.of_nil a).symm
  | case3 c a d b hdelete hinsert hmatch =>
    rw [distance_cons_cons]
    rcases min_choice (min (distance a (d :: b) + 1) (distance (c :: a) b + 1))
      (distance a b + cost c d) with h | h <;> rw [h]
    · rcases min_choice (distance a (d :: b) + 1) (distance (c :: a) b + 1) with h | h <;> rw [h]
      · exact .step (.delete c a) hdelete
      · exact hinsert.trans (.single (.insert d b))
    · rw [cost]
      split
      · rename_i hcd
        rw [hcd]
        exact hmatch.cons d
      · exact .step (.substitute c d a) (hmatch.cons d)

/-- One element more is one edit more at most. -/
theorem distance_cons_left_le (c : α) (a b : List α) : distance (c :: a) b ≤ distance a b + 1 := by
  cases b with
  | nil => simp
  | cons d b =>
    rw [distance_cons_cons]
    exact (min_le_left _ _).trans (min_le_left _ _)

theorem distance_cons_right_le (d : α) (a b : List α) : distance a (d :: b) ≤ distance a b + 1 := by
  cases a with
  | nil => simp
  | cons c a =>
    rw [distance_cons_cons]
    exact (min_le_left _ _).trans (min_le_right _ _)

theorem distance_cons_cons_le (c d : α) (a b : List α) :
    distance (c :: a) (d :: b) ≤ distance a b + cost c d := by
  rw [distance_cons_cons]
  exact min_le_right _ _

/-- No alignment costs less. -/
theorem Align.distance_le (h : Align n a b) : distance a b ≤ n := by
  induction h with
  | nil => simp
  | insert d _ ih => exact (distance_cons_right_le _ _ _).trans (Nat.succ_le_succ ih)
  | delete c _ ih => exact (distance_cons_left_le _ _ _).trans (Nat.succ_le_succ ih)
  | substitute c d _ ih =>
    refine (distance_cons_cons_le c d _ _).trans (Nat.add_le_add ih ?_)
    rw [cost]
    split <;> omega
  | keep c _ ih =>
    refine (distance_cons_cons_le c c _ _).trans ?_
    rwa [cost, if_pos rfl, Nat.add_zero]

/-- **The distance is the least number of edits.** -/
theorem isLeast_distance (a b : List α) : IsLeast {n | Edits n a b} (distance a b) := by
  refine ⟨edits_distance a b, fun n hn => ?_⟩
  obtain ⟨m, hm, ha⟩ := hn.align
  exact ha.distance_le.trans hm

theorem distance_le_of_edits (h : Edits n a b) : distance a b ≤ n := (isLeast_distance a b).2 h

/-! ### What the distance is like -/

theorem distance_comm (a b : List α) : distance a b = distance b a :=
  le_antisymm (distance_le_of_edits (edits_distance b a).symm)
    (distance_le_of_edits (edits_distance a b).symm)

@[simp] theorem distance_self (a : List α) : distance a a = 0 :=
  Nat.le_zero.mp (distance_le_of_edits (.refl a))

theorem distance_reverse (a b : List α) : distance a.reverse b.reverse = distance a b := by
  have hle (a b : List α) : distance a.reverse b.reverse ≤ distance a b :=
    distance_le_of_edits (edits_distance a b).reverse
  refine le_antisymm (hle a b) ?_
  have h := hle a.reverse b.reverse
  rwa [List.reverse_reverse, List.reverse_reverse] at h

/-- **The recursion by the last elements.** -/
theorem distance_concat (c d : α) (a b : List α) : distance (a ++ [c]) (b ++ [d]) =
    min (min (distance a (b ++ [d]) + 1) (distance (a ++ [c]) b + 1)) (distance a b + cost c d) := by
  have hreverse (x y : List α) : distance x y = distance x.reverse y.reverse :=
    (distance_reverse x y).symm
  rw [hreverse (a ++ [c]) (b ++ [d]), hreverse a (b ++ [d]), hreverse (a ++ [c]) b, hreverse a b]
  simp only [List.reverse_append, List.reverse_singleton, List.singleton_append]
  exact distance_cons_cons c d a.reverse b.reverse

/-- The distance is not more than the length of the longer list. -/
theorem distance_le_max (a b : List α) : distance a b ≤ max a.length b.length := by
  induction a, b using distance.induct with
  | case1 b => simp
  | case2 a => simp
  | case3 c a d b _ _ ih =>
    refine (distance_cons_cons_le c d a b).trans ?_
    have hcost : cost c d ≤ 1 := by
      rw [cost]
      split <;> omega
    simp only [List.length_cons]
    omega

end EditDistance
