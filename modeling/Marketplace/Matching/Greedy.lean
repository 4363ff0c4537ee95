import Mathlib.Data.List.Nodup
import Mathlib.Tactic.Common

/-!
# Greedy pairing

A list of pairs, each of which takes something on its left and something on its right. Pairs are
taken from the front as long as neither side is taken (`Matching.greedy`): nothing is taken twice,
and a pair that is left out has lost one of its sides to a pair further in front. When the list is
sorted, that one is at least as good.
-/

namespace Matching

variable {α K L : Type*} [DecidableEq K] [DecidableEq L]

/-- **Pairs are taken from the front**, unless one of their sides is taken. -/
def greedyFrom (left : α → K) (right : α → L) : List K → List L → List α → List α
  | _, _, [] => []
  | ks, ls, x :: xs =>
    if left x ∈ ks ∨ right x ∈ ls then greedyFrom left right ks ls xs
    else x :: greedyFrom left right (left x :: ks) (right x :: ls) xs

/-- The pairs that are taken, when nothing is taken yet. -/
def greedy (left : α → K) (right : α → L) (xs : List α) : List α := greedyFrom left right [] [] xs

variable {left : α → K} {right : α → L} {ks : List K} {ls : List L} {xs : List α} {x : α}

theorem greedyFrom_cons : greedyFrom left right ks ls (x :: xs) =
    if left x ∈ ks ∨ right x ∈ ls then greedyFrom left right ks ls xs
    else x :: greedyFrom left right (left x :: ks) (right x :: ls) xs :=
  rfl

/-- The pairs that are taken are among those that were there, in their order. -/
theorem greedyFrom_sublist : (greedyFrom left right ks ls xs).Sublist xs := by
  induction xs generalizing ks ls with
  | nil => exact List.Sublist.refl []
  | cons x xs ih =>
    rw [greedyFrom_cons]
    split
    next => exact ih.cons x
    next => exact ih.cons_cons x

/-- What is taken was not taken before. -/
theorem not_mem_of_mem_greedyFrom (h : x ∈ greedyFrom left right ks ls xs) :
    left x ∉ ks ∧ right x ∉ ls := by
  induction xs generalizing ks ls with
  | nil => cases h
  | cons y xs ih =>
    rw [greedyFrom_cons] at h
    split at h
    next => exact ih h
    next hfree =>
      rcases List.mem_cons.mp h with rfl | h
      · exact not_or.mp hfree
      · obtain ⟨hks, hls⟩ := ih h
        exact ⟨fun hk => hks (List.mem_cons_of_mem _ hk), fun hl => hls (List.mem_cons_of_mem _ hl)⟩

/-- **Nothing is taken twice.** -/
theorem nodup_greedyFrom : ((greedyFrom left right ks ls xs).map left).Nodup ∧
    ((greedyFrom left right ks ls xs).map right).Nodup := by
  induction xs generalizing ks ls with
  | nil => exact ⟨List.nodup_nil, List.nodup_nil⟩
  | cons x xs ih =>
    rw [greedyFrom_cons]
    split
    next => exact ih
    next =>
      rw [List.map_cons, List.map_cons, List.nodup_cons, List.nodup_cons]
      refine ⟨⟨fun h => ?_, ih.1⟩, fun h => ?_, ih.2⟩
      · obtain ⟨y, hy, hleft⟩ := List.mem_map.mp h
        exact (not_mem_of_mem_greedyFrom hy).1 (hleft ▸ List.mem_cons_self)
      · obtain ⟨y, hy, hright⟩ := List.mem_map.mp h
        exact (not_mem_of_mem_greedyFrom hy).2 (hright ▸ List.mem_cons_self)

/-- **Pairs that stand behind what they compete with take nothing from it**: what is kept of the
pairs that are taken is what would be taken of the pairs that are kept. -/
theorem filter_greedyFrom {P : α → Bool} {ks' : List K} {ls' : List L}
    (hks : ∀ x ∈ xs, P x = true → (left x ∈ ks ↔ left x ∈ ks'))
    (hls : ∀ x ∈ xs, P x = true → (right x ∈ ls ↔ right x ∈ ls'))
    (hbehind : xs.Pairwise fun x y => P x = false → P y = true →
      left x ≠ left y ∧ right x ≠ right y) :
    (greedyFrom left right ks ls xs).filter P = greedyFrom left right ks' ls' (xs.filter P) := by
  induction xs generalizing ks ls ks' ls' with
  | nil => rfl
  | cons x xs ih =>
    obtain ⟨hx, hbehind⟩ := List.pairwise_cons.mp hbehind
    have hksTail := fun y hy => hks y (List.mem_cons_of_mem x hy)
    have hlsTail := fun y hy => hls y (List.mem_cons_of_mem x hy)
    rcases hP : P x with _ | _
    · -- a pair that is not kept takes nothing that a pair behind it, which is kept, needs
      rw [List.filter_cons_of_neg (by rw [hP]; exact Bool.false_ne_true), greedyFrom_cons]
      split
      next => exact ih hksTail hlsTail hbehind
      next =>
        rw [List.filter_cons_of_neg (by rw [hP]; exact Bool.false_ne_true)]
        refine ih (fun y hy hkept => ?_) (fun y hy hkept => ?_) hbehind
        · rw [List.mem_cons, hksTail y hy hkept, or_iff_right]
          exact fun heq => (hx y hy hP hkept).1 heq.symm
        · rw [List.mem_cons, hlsTail y hy hkept, or_iff_right]
          exact fun heq => (hx y hy hP hkept).2 heq.symm
    · have hfree : (left x ∈ ks ∨ right x ∈ ls) ↔ (left x ∈ ks' ∨ right x ∈ ls') :=
        or_congr (hks x List.mem_cons_self hP) (hls x List.mem_cons_self hP)
      rw [List.filter_cons_of_pos hP, greedyFrom_cons, greedyFrom_cons]
      by_cases htaken : left x ∈ ks ∨ right x ∈ ls
      · rw [if_pos htaken, if_pos (hfree.mp htaken)]
        exact ih hksTail hlsTail hbehind
      · rw [if_neg htaken, if_neg (fun h => htaken (hfree.mpr h)), List.filter_cons_of_pos hP]
        refine congrArg (x :: ·) (ih (fun y hy hkept => ?_) (fun y hy hkept => ?_) hbehind)
        · rw [List.mem_cons, List.mem_cons, hksTail y hy hkept]
        · rw [List.mem_cons, List.mem_cons, hlsTail y hy hkept]

/-- **A pair that is left out lost a side to one in front of it.** -/
theorem exists_of_mem (R : α → α → Prop) (hpairwise : xs.Pairwise R) (hx : x ∈ xs) :
    left x ∈ ks ∨ right x ∈ ls ∨ ∃ y ∈ greedyFrom left right ks ls xs,
      (y = x ∨ R y x) ∧ (left y = left x ∨ right y = right x) := by
  induction xs generalizing ks ls with
  | nil => cases hx
  | cons z xs ih =>
    obtain ⟨hz, hpairwise⟩ := List.pairwise_cons.mp hpairwise
    rw [greedyFrom_cons]
    split
    next htaken =>
      rcases List.mem_cons.mp hx with rfl | hx
      · exact htaken.imp id Or.inl
      · exact ih hpairwise hx
    next =>
      rcases List.mem_cons.mp hx with rfl | hx
      · exact Or.inr (Or.inr ⟨x, List.mem_cons_self, Or.inl rfl, Or.inl rfl⟩)
      · have hlost := @ih (left z :: ks) (right z :: ls) hpairwise hx
        rw [List.mem_cons, List.mem_cons] at hlost
        -- the side is lost to the pair in front, or as it is for the rest
        rcases hlost with (hleft | hks) | (hright | hls) | ⟨y, hy, hRy, hside⟩
        · exact Or.inr (Or.inr ⟨z, List.mem_cons_self, Or.inr (hz x hx), Or.inl hleft.symm⟩)
        · exact Or.inl hks
        · exact Or.inr (Or.inr ⟨z, List.mem_cons_self, Or.inr (hz x hx), Or.inr hright.symm⟩)
        · exact Or.inr (Or.inl hls)
        · exact Or.inr (Or.inr ⟨y, List.mem_cons_of_mem _ hy, hRy, hside⟩)

end Matching
