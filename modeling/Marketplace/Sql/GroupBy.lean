import Mathlib.Algebra.GroupWithZero.Nat
import Mathlib.Algebra.BigOperators.Group.List.Lemmas
import Mathlib.Data.List.Dedup

/-!
# `GROUP BY` and `count(*)`

The groups of a query are the values its grouping expression takes, each once, with the
number of rows that take it. `NULL` is a value here like any other: rows without a value are
one group. Over no rows there are no groups, where an aggregate without a grouping still has
one row.

`Sql.sum_groupBy` says that the counts add up to the number of rows, and `Sql.Groups` is
what the answer of a query is in whatever order it comes.
-/

namespace Sql

variable {α β γ : Type*} [DecidableEq β]

/-- `SELECT key, count(*) … GROUP BY key`. -/
def groupBy (key : α → β) (rows : List α) : List (β × ℕ) :=
  (rows.map key).dedup.map fun b => (b, rows.countP fun a => key a = b)

/-- **The groups of some rows**, under labels: every value of the key once, with the number of
rows that have it, in some order. -/
def Groups (key : α → β) (label : β × ℕ → γ) (rows : List α) (entries : List γ) : Prop :=
  ∃ keys : List β, keys.Nodup ∧ (∀ b, b ∈ keys ↔ ∃ a ∈ rows, key a = b) ∧
    entries.Perm (keys.map fun b => label (b, rows.countP fun a => key a = b))

variable {key : α → β} {rows : List α}

/-- A group has as many rows as its value has occurrences. -/
theorem countP_eq_count (b : β) :
    (rows.countP fun a => key a = b) = (rows.map key).count b := by
  rw [List.count, List.countP_map]
  refine List.countP_congr fun a _ => ?_
  simp

/-- **The counts of the groups add up to the number of rows.** -/
theorem sum_groupBy (key : α → β) (rows : List α) :
    ((groupBy key rows).map Prod.snd).sum = rows.length := by
  have hcounts : (groupBy key rows).map Prod.snd =
      (rows.map key).dedup.map fun b => (rows.map key).count b := by
    rw [groupBy, List.map_map]
    exact List.map_congr_left fun b _ => countP_eq_count b
  rw [hcounts, List.sum_map_count_dedup_eq_length, List.length_map]

/-- The answer of a query is its groups. -/
theorem groups_groupBy (key : α → β) (label : β × ℕ → γ) (rows : List α) :
    Groups key label rows ((groupBy key rows).map label) := by
  refine ⟨(rows.map key).dedup, List.nodup_dedup _, fun b => ?_, ?_⟩
  · rw [List.mem_dedup, List.mem_map]
  · rw [groupBy, List.map_map]
    exact .refl _

/-- A group is one of the answer's. -/
theorem mem_groupBy {g : β × ℕ} :
    g ∈ groupBy key rows ↔ (∃ a ∈ rows, key a = g.1) ∧ g.2 = rows.countP fun a => key a = g.1 := by
  rw [groupBy, List.mem_map]
  constructor
  · rintro ⟨b, hb, rfl⟩
    exact ⟨List.mem_map.mp (List.mem_dedup.mp hb), rfl⟩
  · rintro ⟨hb, hcount⟩
    exact ⟨g.1, List.mem_dedup.mpr (List.mem_map.mpr hb), Prod.ext rfl hcount.symm⟩

theorem Groups.of_perm {label : β × ℕ → γ} {entries entries' : List γ}
    (h : Groups key label rows entries) (hperm : entries'.Perm entries) :
    Groups key label rows entries' := by
  obtain ⟨keys, hnodup, hkeys, hentries⟩ := h
  exact ⟨keys, hnodup, hkeys, hperm.trans hentries⟩

/-- **What a loop collects**: a part of its state to which every row adds what it has to. -/
theorem foldl_collect {σ ρ δ : Type*} {step : σ → ρ → σ} {part : σ → List δ} {found : ρ → Option δ}
    (h : ∀ s r, part (step s r) = part s ++ (found r).toList) (s : σ) (rows : List ρ) :
    part (rows.foldl step s) = part s ++ rows.filterMap found := by
  induction rows generalizing s with
  | nil => simp
  | cons r rows ih =>
    rw [List.foldl_cons, ih, h, List.append_assoc, List.filterMap_cons]
    rcases found r <;> simp

end Sql
