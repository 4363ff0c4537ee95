import Mathlib.Data.List.Sort
import Mathlib.Data.List.Nodup
import Mathlib.Order.Compare

/-!
# `ORDER BY`

A sort of a query is a comparison of two rows, built from the comparisons of its sort
expressions with `compareLex`. A sort expression may be `NULL`; here it goes last,
which is what `ASC` does unless told otherwise and what `DESC NULLS LAST` asks for.

When two different rows never compare equal – a sort that ends on a key – the order of
the rows is determined: `Sql.pairwise_orderBy_lt` says that they stand in strict order,
and `Sql.filter_orderBy` that it does not matter whether rows are dropped before the
sort or after it.
-/

namespace Sql

variable {α β : Type*}

/-! ### Sort expressions -/

section Terms

variable [LinearOrder β]

/-- `f ASC`, for an expression that is never `NULL`. -/
def asc (f : α → β) (a b : α) : Ordering := cmp (f a) (f b)

/-- `f DESC`, for an expression that is never `NULL`. -/
def desc (f : α → β) (a b : α) : Ordering := cmp (f b) (f a)

/-- A comparison of values, with `NULL` after all of them. -/
def nullsLast (c : β → β → Ordering) : Option β → Option β → Ordering
  | none, none => .eq
  | none, some _ => .gt
  | some _, none => .lt
  | some a, some b => c a b

/-- `f ASC`, where `NULL`s go last. -/
def ascNullsLast (f : α → Option β) (a b : α) : Ordering := nullsLast cmp (f a) (f b)

/-- `f DESC`, where `NULL`s go first: the order of `f ASC`, backwards. -/
def descNullsFirst (f : α → Option β) (a b : α) : Ordering := ascNullsLast f b a

/-- `f DESC NULLS LAST`. -/
def descNullsLast (f : α → Option β) (a b : α) : Ordering :=
  nullsLast (fun x y => cmp y x) (f a) (f b)

instance transCmp_cmp : Std.TransCmp (cmp : β → β → Ordering) where
  eq_swap {a b} := (cmp_swap b a).symm
  isLE_trans {a b c} := by
    have hle : ∀ x y : β, (cmp x y).isLE = true ↔ x ≤ y := by
      intro x y
      rw [← not_lt, ← cmp_eq_gt_iff]
      cases cmp x y <;> simp
    rw [hle, hle, hle]
    exact le_trans

instance transCmp_asc (f : α → β) : Std.TransCmp (asc f) where
  eq_swap {_ _} := @Std.OrientedCmp.eq_swap _ ((cmp : β → β → Ordering)) _ _ _
  isLE_trans {_ _ _} := @Std.TransCmp.isLE_trans _ ((cmp : β → β → Ordering)) _ _ _ _

instance transCmp_desc (f : α → β) : Std.TransCmp (desc f) where
  eq_swap {_ _} := @Std.OrientedCmp.eq_swap _ (fun x y : β => cmp y x) _ _ _
  isLE_trans {_ _ _} := @Std.TransCmp.isLE_trans _ (fun x y : β => cmp y x) _ _ _ _

instance transCmp_nullsLast (c : β → β → Ordering) [Std.TransCmp c] :
    Std.TransCmp (nullsLast c) where
  eq_swap {a b} := by
    rcases a with _ | a <;> rcases b with _ | b <;> try rfl
    exact @Std.OrientedCmp.eq_swap _ (c) _ _ _
  isLE_trans {x y z} hxy hyz := by
    rcases x with _ | x <;> rcases y with _ | y <;> rcases z with _ | z <;>
      first
      | rfl
      | exact absurd hxy Bool.false_ne_true
      | exact absurd hyz Bool.false_ne_true
      | exact @Std.TransCmp.isLE_trans _ c _ _ _ _ hxy hyz

instance transCmp_ascNullsLast (f : α → Option β) : Std.TransCmp (ascNullsLast f) where
  eq_swap {_ _} := @Std.OrientedCmp.eq_swap _ (nullsLast (cmp : β → β → Ordering)) _ _ _
  isLE_trans {_ _ _} := @Std.TransCmp.isLE_trans _ (nullsLast (cmp : β → β → Ordering)) _ _ _ _

instance transCmp_descNullsFirst (f : α → Option β) : Std.TransCmp (descNullsFirst f) where
  eq_swap {a b} := @Std.OrientedCmp.eq_swap _ (ascNullsLast f) _ b a
  isLE_trans {a b c} hab hbc :=
    @Std.TransCmp.isLE_trans _ (ascNullsLast f) _ c b a hbc hab

instance transCmp_descNullsLast (f : α → Option β) : Std.TransCmp (descNullsLast f) where
  eq_swap {_ _} := @Std.OrientedCmp.eq_swap _ (nullsLast fun x y : β => cmp y x) _ _ _
  isLE_trans {_ _ _} := @Std.TransCmp.isLE_trans _ (nullsLast fun x y : β => cmp y x) _ _ _ _

theorem asc_eq_lt {f : α → β} {a b : α} : asc f a b = .lt ↔ f a < f b := cmp_eq_lt_iff _ _

theorem asc_eq_eq {f : α → β} {a b : α} : asc f a b = .eq ↔ f a = f b := cmp_eq_eq_iff _ _

theorem desc_eq_lt {f : α → β} {a b : α} : desc f a b = .lt ↔ f b < f a := cmp_eq_lt_iff _ _

theorem desc_eq_eq {f : α → β} {a b : α} : desc f a b = .eq ↔ f a = f b := by
  rw [desc, cmp_eq_eq_iff, eq_comm]

omit [LinearOrder β] in
/-- With `NULL`s last, a value comes before one that compares as later, and before none. -/
theorem nullsLast_eq_lt {c : β → β → Ordering} {o p : Option β} :
    nullsLast c o p = .lt ↔ ∃ x ∈ o, ∀ y ∈ p, c x y = .lt := by
  rcases o with _ | x <;> rcases p with _ | y <;> simp [nullsLast]

omit [LinearOrder β] in
theorem nullsLast_eq_eq {c : β → β → Ordering} (hc : ∀ x y, c x y = .eq ↔ x = y)
    {o p : Option β} : nullsLast c o p = .eq ↔ o = p := by
  rcases o with _ | x <;> rcases p with _ | y <;> simp [nullsLast, hc]

/-- Descending, a row with a value comes before one with a lower value or with none. -/
theorem descNullsLast_eq_lt {f : α → Option β} {a b : α} :
    descNullsLast f a b = .lt ↔ ∃ x ∈ f a, ∀ y ∈ f b, y < x :=
  nullsLast_eq_lt.trans <| exists_congr fun x => and_congr_right fun _ =>
    forall₂_congr fun y _ => cmp_eq_lt_iff y x

theorem descNullsLast_eq_eq {f : α → Option β} {a b : α} :
    descNullsLast f a b = .eq ↔ f a = f b :=
  nullsLast_eq_eq fun x y => (cmp_eq_eq_iff y x).trans eq_comm

/-- Ascending, a row with a value comes before one with a higher value or with none. -/
theorem ascNullsLast_eq_lt {f : α → Option β} {a b : α} :
    ascNullsLast f a b = .lt ↔ ∃ x ∈ f a, ∀ y ∈ f b, x < y :=
  nullsLast_eq_lt.trans <| exists_congr fun x => and_congr_right fun _ =>
    forall₂_congr fun y _ => cmp_eq_lt_iff x y

theorem ascNullsLast_eq_eq {f : α → Option β} {a b : α} :
    ascNullsLast f a b = .eq ↔ f a = f b :=
  nullsLast_eq_eq fun x y => cmp_eq_eq_iff x y

/-- Descending with `NULL`s first, a row comes before one with a lower value. -/
theorem descNullsFirst_eq_lt {f : α → Option β} {a b : α} :
    descNullsFirst f a b = .lt ↔ ∃ y ∈ f b, ∀ x ∈ f a, y < x :=
  ascNullsLast_eq_lt

theorem descNullsFirst_eq_eq {f : α → Option β} {a b : α} :
    descNullsFirst f a b = .eq ↔ f a = f b := by
  rw [descNullsFirst, ascNullsLast_eq_eq, eq_comm]

theorem compareLex_eq_lt {c d : α → α → Ordering} {a b : α} :
    compareLex c d a b = .lt ↔ c a b = .lt ∨ c a b = .eq ∧ d a b = .lt := by
  rw [compareLex]
  cases c a b <;> simp [Ordering.then]

end Terms

/-! ### Sorted rows -/

section Rows

variable (c : α → α → Ordering)

/-- The rows of a query, sorted. -/
def orderBy (rows : List α) : List α := rows.insertionSort fun a b => (c a b).isLE = true

theorem orderBy_perm (rows : List α) : (orderBy c rows).Perm rows :=
  List.perm_insertionSort _ rows

@[simp] theorem mem_orderBy {rows : List α} {x : α} : x ∈ orderBy c rows ↔ x ∈ rows :=
  (orderBy_perm c rows).mem_iff

@[simp] theorem length_orderBy (rows : List α) : (orderBy c rows).length = rows.length :=
  (orderBy_perm c rows).length_eq

/-- Sorting what is sorted changes nothing. -/
theorem orderBy_of_pairwise {rows : List α} (h : rows.Pairwise fun a b => (c a b).isLE = true) :
    orderBy c rows = rows := List.Pairwise.insertionSort_eq h

variable [Std.TransCmp c]

theorem pairwise_orderBy (rows : List α) :
    (orderBy c rows).Pairwise fun a b => (c a b).isLE = true := by
  have : Std.Total fun a b => (c a b).isLE = true := ⟨fun a b => by
    have hswap : c b a = (c a b).swap := Std.OrientedCmp.eq_swap
    rw [hswap]
    cases c a b <;> simp⟩
  have : IsTrans α fun a b => (c a b).isLE = true := ⟨fun _ _ _ => Std.TransCmp.isLE_trans⟩
  exact List.pairwise_insertionSort _ rows

/-- The first rows of a sorted query are sorted. -/
theorem orderBy_take (rows : List α) (n : ℕ) :
    orderBy c ((orderBy c rows).take n) = (orderBy c rows).take n :=
  orderBy_of_pairwise c ((pairwise_orderBy c rows).sublist (List.take_sublist _ _))

variable {c} {rows : List α} (hkey : ∀ a ∈ rows, ∀ b ∈ rows, c a b = .eq → a = b)

include hkey

/-- The order in which rows are found makes no difference to a sort. -/
theorem orderBy_eq_of_perm {rows' : List α} (hperm : rows.Perm rows') :
    orderBy c rows = orderBy c rows' := by
  have horders : (orderBy c rows).Perm (orderBy c rows') :=
    ((orderBy_perm c rows).trans hperm).trans (orderBy_perm c rows').symm
  refine horders.eq_of_pairwise ?_ (pairwise_orderBy c rows) (pairwise_orderBy c rows')
  intro a b ha hb hab hba
  have hswap : c b a = (c a b).swap := Std.OrientedCmp.eq_swap
  rw [hswap] at hba
  rcases hc : c a b
  · exact absurd hba (by simp [hc])
  · exact hkey a ((mem_orderBy c).mp ha) b (hperm.mem_iff.mpr ((mem_orderBy c).mp hb)) hc
  · exact absurd hab (by simp [hc])

variable (hnodup : rows.Nodup)

include hnodup

/-- **Rows that never compare equal stand in strict order.** -/
theorem pairwise_orderBy_lt : (orderBy c rows).Pairwise fun a b => c a b = .lt := by
  have hne : (orderBy c rows).Pairwise (· ≠ ·) := (orderBy_perm c rows).nodup_iff.mpr hnodup
  refine (List.Pairwise.and_mem.mp ((pairwise_orderBy c rows).and hne)).imp ?_
  rintro a b ⟨ha, hb, hle, hab⟩
  rcases hc : c a b
  · rfl
  · exact absurd (hkey a ((mem_orderBy c).mp ha) b ((mem_orderBy c).mp hb) hc) hab
  · rw [hc] at hle
    exact absurd hle (by decide)

/-- Dropping rows before the sort or after it is the same. -/
theorem filter_orderBy (p : α → Bool) :
    (orderBy c rows).filter p = orderBy c (rows.filter p) := by
  have hkey' : ∀ a ∈ rows.filter p, ∀ b ∈ rows.filter p, c a b = .eq → a = b := fun a ha b hb =>
    hkey a (List.mem_of_mem_filter ha) b (List.mem_of_mem_filter hb)
  have h1 : ((orderBy c rows).filter p).Pairwise fun a b => c a b = .lt :=
    (pairwise_orderBy_lt hkey hnodup).sublist List.filter_sublist
  have h2 : (orderBy c (rows.filter p)).Pairwise fun a b => c a b = .lt :=
    pairwise_orderBy_lt hkey' (hnodup.filter p)
  have hperm : ((orderBy c rows).filter p).Perm (orderBy c (rows.filter p)) :=
    ((orderBy_perm c rows).filter p).trans (orderBy_perm c (rows.filter p)).symm
  refine hperm.eq_of_pairwise ?_ h1 h2
  intro a b _ _ hab hba
  rw [Std.OrientedCmp.gt_of_lt hab] at hba
  exact absurd hba (by decide)

end Rows

/-- Sorting projected rows by what the projection keeps. -/
theorem orderBy_map {c : α → α → Ordering} {d : β → β → Ordering} {g : α → β}
    (h : ∀ a b, d (g a) (g b) = c a b) (rows : List α) :
    orderBy d (rows.map g) = (orderBy c rows).map g := by
  refine (List.map_insertionSort _ _ g rows fun a _ b _ => ?_).symm
  rw [h]

/-! ### `LIMIT` -/

/-- One row more than the limit is fetched, and says whether there are more. -/
theorem capped (limit : ℕ) (rows : List α) :
    (if limit < (rows.take (limit + 1)).length then ((rows.take (limit + 1)).dropLast, true)
      else (rows.take (limit + 1), false)) = (rows.take limit, decide (limit < rows.length)) := by
  rcases Nat.lt_or_ge limit rows.length with hlt | hle
  · have hlen : (rows.take (limit + 1)).length = limit + 1 := by
      rw [List.length_take]
      omega
    have hdrop : (rows.take (limit + 1)).dropLast = rows.take limit := by
      rw [List.dropLast_eq_take, hlen, List.take_take]
      congr 1
      omega
    rw [if_pos (by omega), hdrop, decide_eq_true hlt]
  · have htake : rows.take (limit + 1) = rows := List.take_of_length_le (by omega)
    rw [htake, if_neg (by omega), List.take_of_length_le hle, decide_eq_false (by omega)]

/-- **Two selections of the same rows, capped**: they show the same rows and agree on whether
there are more, exactly if every row of one alone comes after a full page of common ones and
both selections go beyond the page. -/
theorem take_filter_eq_iff {p q : α → Bool} {rows : List α} (hnodup : rows.Nodup) (n : ℕ) :
    ((rows.filter p).take n = (rows.filter q).take n ∧
        (n < (rows.filter p).length ↔ n < (rows.filter q).length)) ↔
      ∀ l x r, rows = l ++ x :: r → p x ≠ q x →
        n ≤ l.countP (fun y => p y && q y) ∧ n < rows.countP p ∧ n < rows.countP q := by
  induction rows generalizing n with
  | nil => simp
  | cons y rows ih =>
    obtain ⟨hy, hnodup⟩ := List.nodup_cons.mp hnodup
    -- a place in the rows is the first one or one of the others
    have hplaces : ∀ P : List α → α → Prop,
        (∀ l x r, y :: rows = l ++ x :: r → P l x) ↔
          P [] y ∧ ∀ l x r, rows = l ++ x :: r → P (y :: l) x := by
      intro P
      constructor
      · intro h
        exact ⟨h [] y rows rfl, fun l x r hr => h (y :: l) x r (by rw [hr]; rfl)⟩
      · rintro ⟨hfirst, hrest⟩ l x r hr
        rcases l with _ | ⟨z, l⟩
        · obtain ⟨rfl, rfl⟩ := List.cons.inj hr
          exact hfirst
        · obtain ⟨rfl, hrows⟩ := List.cons.inj hr
          exact hrest l x r hrows
    have habsent : y ∉ rows.filter p ∧ y ∉ rows.filter q :=
      ⟨fun h => hy (List.mem_of_mem_filter h), fun h => hy (List.mem_of_mem_filter h)⟩
    have ih := ih hnodup
    simp only [← List.countP_eq_length_filter] at ih ⊢
    rw [hplaces fun l x => p x ≠ q x → n ≤ l.countP (fun y => p y && q y) ∧
      n < (y :: rows).countP p ∧ n < (y :: rows).countP q]
    simp only [List.countP_cons, List.filter_cons, List.countP_nil, Nat.le_zero]
    rcases hp : p y <;> rcases hq : q y
    · simp [ih]
    · -- a row of the second selection alone
      rcases n with _ | n
      · simp
        exact fun x hx hx' _ _ _ _ _ => ⟨x, hx, hx'⟩
      · refine iff_of_false ?_ (by simp)
        rintro ⟨htake, -⟩
        simp only [Bool.false_eq_true, if_false, if_true, List.take_succ_cons] at htake
        exact habsent.1 (List.mem_of_mem_take (htake ▸ List.mem_cons_self))
    · -- a row of the first selection alone
      rcases n with _ | n
      · simp
        exact fun x hx hx' _ _ _ _ _ => ⟨x, hx, hx'⟩
      · refine iff_of_false ?_ (by simp)
        rintro ⟨htake, -⟩
        simp only [Bool.false_eq_true, if_false, if_true, List.take_succ_cons] at htake
        exact habsent.2 (List.mem_of_mem_take (htake ▸ List.mem_cons_self))
    · -- a common row
      rcases n with _ | n
      · simp
      · have hih := ih n
        simp only [if_true, List.take_succ_cons, List.cons.injEq, true_and, Nat.add_lt_add_iff_right,
          hih]
        simp

end Sql
