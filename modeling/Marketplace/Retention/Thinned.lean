import Mathlib.Data.List.Basic
import Mathlib.Tactic.Common

/-!
# Rows that nothing needs

A table is a list of rows, and some of its rows are *dead*. One table is thinned from another one
(`Retention.Thinned`) when it is the same but for dead rows that it lacks. What is found in a table
by a condition that no dead row satisfies is found in the thinned one, and an update which leaves
the dead rows dead, whatever else it does to them, keeps a table and the thinned one in step.

Rows are written by `Retention.update`, which is an `UPDATE … WHERE … RETURNING`, and by
`Retention.insert`, which is an `INSERT` under unique indexes; they are deleted by
`Retention.delete`, which is a `DELETE` of no more than so many rows, of those that a scan comes
upon.
-/

namespace Retention

variable {α β κ : Type}

/-! ### Statements -/

/-- **The rows that `f` has a new version of are replaced by it**, and answered. -/
def update (f : α → Option (β × α)) (xs : List α) : List β × List α :=
  (xs.filterMap fun a => (f a).map Prod.fst, xs.map fun a => (f a).elim a Prod.snd)

/-- **A row is inserted**, unless it clashes with a row that is there; whether it was is answered. -/
def insert (clashes : α → Bool) (a : α) (xs : List α) : Bool × List α :=
  if xs.any clashes then (false, xs) else (true, xs ++ [a])

section Delete

variable [DecidableEq κ] (key : α → κ) (isOver : α → Bool) (limit : ℕ) (found : List κ)

/-- The keys of the rows that are deleted: as many as may be, of those that the scan comes upon. -/
def marked (xs : List α) : List κ :=
  (found.filter fun k => xs.any fun a => key a = k && isOver a).take limit

/-- **The rows that are over are deleted**, no more than `limit` of them. -/
def delete (xs : List α) : List α :=
  xs.filter fun a => !(isOver a && decide (key a ∈ marked key isOver limit found xs))

end Delete

/-- What an update keeps of each row, it keeps of the table. -/
theorem forall_update {P : α → Prop} {f : α → Option (β × α)} {xs : List α} (h : ∀ a ∈ xs, P a)
    (hf : ∀ a b a', f a = some (b, a') → P a → P a') : ∀ a ∈ (update f xs).2, P a := by
  intro a' ha'
  obtain ⟨a, ha, rfl⟩ := List.mem_map.mp ha'
  cases hfa : f a with
  | none => exact h a ha
  | some p => exact hf a p.1 p.2 hfa (h a ha)

/-! ### Tables that lack dead rows -/

/-- **The first table is the second one without some of its dead rows.** -/
inductive Thinned (dead : α → Prop) : List α → List α → Prop
  /-- There are no rows. -/
  | nil : Thinned dead [] []
  /-- The row is still there. -/
  | keep (a : α) {xs ys : List α} (h : Thinned dead xs ys) : Thinned dead (a :: xs) (a :: ys)
  /-- The row is gone. -/
  | drop {a : α} {xs ys : List α} (ha : dead a) (h : Thinned dead xs ys) : Thinned dead xs (a :: ys)

namespace Thinned

variable {dead dead' : α → Prop} {xs ys zs : List α}

theorem refl : ∀ xs : List α, Thinned dead xs xs
  | [] => .nil
  | a :: xs => .keep a (refl xs)

theorem mono (h : Thinned dead xs ys) (hdead : ∀ a, dead a → dead' a) : Thinned dead' xs ys := by
  induction h with
  | nil => exact .nil
  | keep a _ ih => exact .keep a ih
  | drop ha _ ih => exact .drop (hdead _ ha) ih

theorem trans (h : Thinned dead xs ys) (h' : Thinned dead ys zs) : Thinned dead xs zs := by
  induction h' generalizing xs with
  | nil => exact h
  | keep a _ ih =>
    cases h with
    | keep _ h => exact .keep a (ih h)
    | drop ha h => exact .drop ha (ih h)
  | drop ha _ ih => exact .drop ha (ih h)

/-- A row that is gone was dead. -/
theorem dead_of_not_mem (h : Thinned dead xs ys) {a : α} (ha : a ∈ ys) (hgone : a ∉ xs) :
    dead a := by
  induction h with
  | nil => cases ha
  | keep b _ ih =>
    rcases List.mem_cons.mp ha with rfl | ha
    · exact absurd List.mem_cons_self hgone
    · exact ih ha fun hmem => hgone (List.mem_cons_of_mem b hmem)
  | drop hb _ ih =>
    rcases List.mem_cons.mp ha with rfl | ha
    · exact hb
    · exact ih ha hgone

theorem of_filter {p : α → Bool} (h : ∀ a ∈ ys, p a = false → dead a) :
    Thinned dead (ys.filter p) ys := by
  induction ys with
  | nil => exact .nil
  | cons a ys ih =>
    have hrest := ih fun b hb => h b (List.mem_cons_of_mem a hb)
    cases hp : p a with
    | true => rw [List.filter_cons_of_pos hp]; exact .keep a hrest
    | false =>
      rw [List.filter_cons_of_neg (by simp [hp])]
      exact .drop (h a List.mem_cons_self hp) hrest

/-- A new row. -/
theorem concat (h : Thinned dead xs ys) (a : α) : Thinned dead (xs ++ [a]) (ys ++ [a]) := by
  induction h with
  | nil => exact .keep a .nil
  | keep b _ ih => exact .keep b ih
  | drop hb _ ih => exact .drop hb ih

/-! ### What is read -/

/-- **What no dead row has a part in is collected from the thinned table.** -/
theorem filterMap_eq {f : α → Option β} (h : Thinned dead xs ys)
    (hf : ∀ a ∈ ys, dead a → f a = none) : xs.filterMap f = ys.filterMap f := by
  induction h with
  | nil => rfl
  | keep a _ ih =>
    rw [List.filterMap_cons, List.filterMap_cons, ih fun b hb => hf b (List.mem_cons_of_mem a hb)]
  | drop ha _ ih =>
    rw [List.filterMap_cons_none (hf _ List.mem_cons_self ha)]
    exact ih fun b hb => hf b (List.mem_cons_of_mem _ hb)

variable {p : α → Bool}

theorem filter_eq (h : Thinned dead xs ys) (hp : ∀ a ∈ ys, dead a → p a = false) :
    xs.filter p = ys.filter p := by
  induction h with
  | nil => rfl
  | keep a _ ih =>
    rw [List.filter_cons, List.filter_cons, ih fun b hb => hp b (List.mem_cons_of_mem a hb)]
  | drop ha _ ih =>
    rw [List.filter_cons_of_neg (by simp [hp _ List.mem_cons_self ha])]
    exact ih fun b hb => hp b (List.mem_cons_of_mem _ hb)

theorem find?_eq (h : Thinned dead xs ys) (hp : ∀ a ∈ ys, dead a → p a = false) :
    xs.find? p = ys.find? p := by
  rw [← List.head?_filter, ← List.head?_filter, h.filter_eq hp]

theorem any_eq (h : Thinned dead xs ys) (hp : ∀ a ∈ ys, dead a → p a = false) :
    xs.any p = ys.any p := by
  induction h with
  | nil => rfl
  | keep a _ ih =>
    rw [List.any_cons, List.any_cons, ih fun b hb => hp b (List.mem_cons_of_mem a hb)]
  | drop ha _ ih =>
    rw [List.any_cons, hp _ List.mem_cons_self ha, Bool.false_or]
    exact ih fun b hb => hp b (List.mem_cons_of_mem _ hb)

/-! ### What is written -/

/-- **An update that leaves the dead rows dead.** -/
theorem update_snd {f : α → Option (β × α)} (h : Thinned dead xs ys)
    (hf : ∀ a ∈ ys, dead a → ∀ b a', f a = some (b, a') → dead a') :
    Thinned dead (update f xs).2 (update f ys).2 := by
  induction h with
  | nil => exact .nil
  | keep a _ ih => exact .keep _ (ih fun b hb => hf b (List.mem_cons_of_mem a hb))
  | @drop a _ _ ha _ ih =>
    refine .drop ?_ (ih fun b hb => hf b (List.mem_cons_of_mem _ hb))
    show dead ((f a).elim a Prod.snd)
    cases hfa : f a with
    | none => exact ha
    | some p => exact hf a List.mem_cons_self ha p.1 p.2 hfa

/-- **An update that has nothing to do with the dead rows** answers the same, and keeps the tables
in step. -/
theorem update_both {f : α → Option (β × α)} (h : Thinned dead xs ys)
    (hf : ∀ a ∈ ys, dead a → f a = none) :
    (update f xs).1 = (update f ys).1 ∧ Thinned dead (update f xs).2 (update f ys).2 := by
  refine ⟨h.filterMap_eq fun a ha hdead => by rw [hf a ha hdead, Option.map_none], ?_⟩
  refine h.update_snd fun a ha hdead b a' hfa => ?_
  rw [hf a ha hdead] at hfa
  cases hfa

end Thinned

namespace Thinned

variable {dead : α → Prop} {xs ys : List α} {clashes : α → Bool} {a : α}

/-- **An insertion that no dead row stands in the way of.** -/
theorem insert_both (h : Thinned dead xs ys) (hclash : ∀ b ∈ ys, dead b → clashes b = false) :
    (insert clashes a xs).1 = (insert clashes a ys).1 ∧
      Thinned dead (insert clashes a xs).2 (insert clashes a ys).2 := by
  rw [insert, insert, h.any_eq hclash]
  split
  · exact ⟨rfl, h⟩
  · exact ⟨rfl, h.concat a⟩

end Thinned

/-! ### What is deleted -/

section Deleted

variable [DecidableEq κ] {key : α → κ} {isOver : α → Bool} {limit : ℕ} {found : List κ} {xs : List α}

/-- **Only rows that are over are deleted.** -/
theorem thinned_delete {dead : α → Prop} (h : ∀ a ∈ xs, isOver a = true → dead a) :
    Thinned dead (delete key isOver limit found xs) xs := by
  refine Thinned.of_filter fun a ha hgone => h a ha ?_
  cases hover : isOver a with
  | true => rfl
  | false => simp [hover] at hgone

end Deleted

end Retention
