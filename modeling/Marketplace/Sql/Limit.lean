import Marketplace.Sql.OrderBy

/-!
# `ORDER BY … LIMIT`

A query with a limit answers with the first of its rows, in an order in which rows that compare equal
may come either way (`Sql.Answers`). So a row may be in an answer exactly if the rows that come
before it leave room for it (`Sql.exists_answers_mem_iff`).
-/

namespace Sql

variable {α : Type*} {c : α → α → Ordering} {n : ℕ} {rows out : List α} {a : α}

/-- **What a sorted query with a limit may answer**: the first rows of some sorting of them. -/
def Answers (c : α → α → Ordering) (n : ℕ) (rows out : List α) : Prop :=
  ∃ sorted : List α, sorted.Perm rows ∧ (sorted.Pairwise fun a b => (c a b).isLE = true) ∧
    out = sorted.take n

theorem Answers.mem (h : Answers c n rows out) (ha : a ∈ out) : a ∈ rows := by
  obtain ⟨sorted, hperm, -, rfl⟩ := h
  exact hperm.mem_iff.mp (List.mem_of_mem_take ha)

theorem Answers.length (h : Answers c n rows out) : out.length = min n rows.length := by
  obtain ⟨sorted, hperm, -, rfl⟩ := h
  rw [List.length_take, hperm.length_eq]

/-- The first rows of an answer are an answer of a smaller query. -/
theorem Answers.take (h : Answers c n rows out) (m : ℕ) : Answers c (min m n) rows (out.take m) := by
  obtain ⟨sorted, hperm, hsorted, rfl⟩ := h
  exact ⟨sorted, hperm, hsorted, List.take_take⟩

/-- An answer of a smaller query is the beginning of one. -/
theorem Answers.exists_take {m : ℕ} (h : Answers c (min m n) rows out) :
    ∃ more, Answers c n rows more ∧ more.take m = out := by
  obtain ⟨sorted, hperm, hsorted, rfl⟩ := h
  exact ⟨sorted.take n, ⟨sorted, hperm, hsorted, rfl⟩, List.take_take⟩

variable [Std.TransCmp c]

variable (rows) in
/-- There is an answer. -/
theorem answers_orderBy : Answers c n rows ((orderBy c rows).take n) :=
  ⟨orderBy c rows, orderBy_perm c rows, pairwise_orderBy c rows, rfl⟩

theorem not_before {a b : α} (h : (c a b).isLE = true) : ¬ c b a = .lt := by
  intro hlt
  rw [Std.OrientedCmp.gt_of_lt hlt] at h
  exact absurd h (by decide)

/-- The rows that come before one that is shown are shown as well. -/
theorem Answers.countP_lt (h : Answers c n rows out) (ha : a ∈ out) :
    rows.countP (fun b => c b a = .lt) < n := by
  obtain ⟨sorted, hperm, hsorted, rfl⟩ := h
  obtain ⟨s, t, hst⟩ := List.append_of_mem ha
  have hlength := congrArg List.length hst
  rw [List.length_take, List.length_append, List.length_cons] at hlength
  rw [← hperm.countP_eq, ← List.take_append_drop n sorted, hst, List.append_assoc,
    List.cons_append, List.countP_append]
  rw [← List.take_append_drop n sorted, hst, List.append_assoc, List.cons_append] at hsorted
  have hafter := (List.pairwise_cons.mp (List.pairwise_append.mp hsorted).2.1).1
  -- None of what stands after the row comes before it, and neither does the row itself.
  have hnone : (a :: (t ++ sorted.drop n)).countP (fun b => c b a = .lt) = 0 := by
    refine List.countP_eq_zero.mpr fun b hb => ?_
    rw [decide_eq_true_eq]
    rcases List.mem_cons.mp hb with rfl | hb
    · have hself : c b b = .eq := Std.ReflCmp.compare_self
      rw [hself]
      decide
    · exact not_before (hafter b hb)
  have hle := List.countP_le_length (p := fun b => decide (c b a = .lt)) (l := s)
  omega

/-- **What may be shown**: a row for which those before it leave room. -/
theorem exists_answers_mem_iff :
    (∃ out, Answers c n rows out ∧ a ∈ out) ↔
      a ∈ rows ∧ rows.countP (fun b => c b a = .lt) < n := by
  constructor
  · rintro ⟨out, hout, ha⟩
    exact ⟨hout.mem ha, hout.countP_lt ha⟩
  · rintro ⟨ha, hcount⟩
    obtain ⟨s, t, rfl⟩ := List.append_of_mem ha
    let before := orderBy c ((s ++ t).filter fun b => c b a = .lt)
    let after := orderBy c ((s ++ t).filter fun b => !decide (c b a = .lt))
    have hbefore : ∀ b ∈ before, c b a = .lt := fun b hb =>
      of_decide_eq_true (List.mem_filter.mp ((mem_orderBy c).mp hb)).2
    have hafter : ∀ b ∈ after, (c a b).isLE = true := by
      intro b hb
      have hnot := (List.mem_filter.mp ((mem_orderBy c).mp hb)).2
      have hswap : c b a = (c a b).swap := Std.OrientedCmp.eq_swap
      rw [hswap] at hnot
      rcases hab : c a b
      · rfl
      · rfl
      · rw [hab] at hnot
        exact absurd hnot (by decide)
    -- The row stands after those that come before it, and before those that compare equal.
    have hperm : (before ++ a :: after).Perm (s ++ a :: t) := by
      refine List.perm_middle.trans (((List.Perm.append (orderBy_perm c _) (orderBy_perm c _)).trans
        (List.filter_append_perm _ (s ++ t))).cons a |>.trans List.perm_middle.symm)
    have hlength : before.length < n := by
      rw [length_orderBy, ← List.countP_eq_length_filter]
      refine lt_of_le_of_lt ?_ hcount
      simp only [List.countP_append, List.countP_cons]
      omega
    refine ⟨(before ++ a :: after).take n, ⟨_, hperm, ?_, rfl⟩, ?_⟩
    · refine List.pairwise_append.mpr ⟨pairwise_orderBy c _,
        List.pairwise_cons.mpr ⟨hafter, pairwise_orderBy c _⟩, fun b hb d hd => ?_⟩
      have hle : (c b a).isLE = true := by
        rw [hbefore b hb]
        rfl
      rcases List.mem_cons.mp hd with rfl | hd
      · exact hle
      · exact Std.TransCmp.isLE_trans hle (hafter d hd)
    · obtain ⟨m, hm⟩ := Nat.exists_eq_add_of_lt hlength
      rw [List.take_append, show n - before.length = m + 1 by omega, List.take_succ_cons]
      exact List.mem_append_right _ List.mem_cons_self

end Sql
