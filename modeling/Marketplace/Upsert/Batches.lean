import Mathlib.Algebra.BigOperators.Group.List.Basic
import Mathlib.Algebra.Group.Action.Defs
import Mathlib.Data.List.Nodup

/-!
# Batches of upserts

A row that is put under a key is inserted if there is none, and else written over the one there is,
column by column: what is given replaces what was there, and what is not given stays. Such patches
form a monoid that acts on rows, and one done twice is the same as done once.

What a batch makes of a table is therefore said row by row: the patches for its key have been
applied to what there was, or to a blank row (`Upsert.mem_load`). A table that has all the keys of a
batch only has its rows patched (`Upsert.load_of_known`), and loading a batch again leaves the table
as it is (`Upsert.load_load`).
-/

namespace Upsert

/-! ### Tables -/

section Tables

variable {K R P : Type*} [DecidableEq K] [Monoid P] [MulAction P R] {key : R → K}
  {blank : ℕ → K → R} {batch : List (K × P)} {rows : List R} {r : R} {k : K} {n : ℕ}

/-- **`INSERT … ON CONFLICT (key) DO UPDATE SET …`.** -/
def onConflict (key : R → K) (new : R) (set : R → R) (rows : List R) : List R :=
  if rows.any fun r => key r = key new then rows.map fun r => if key r = key new then set r else r
  else rows ++ [new]

/-- **Put a patch under a key**: over the row of this key, or else over a blank row, which is
inserted. -/
def put (key : R → K) (new : R) (p : P) (rows : List R) : List R :=
  if rows.any fun r => key r = key new then rows.map fun r => if key r = key new then p • r else r
  else rows ++ [p • new]

/-- **Put a batch of patches**, each under its key; the blank rows have numbers from `n` on. -/
def load (key : R → K) (blank : ℕ → K → R) : List (K × P) → ℕ → List R → List R
  | [], _, rows => rows
  | (k, p) :: batch, n, rows => load key blank batch (n + 1) (put key (blank n k) p rows)

/-- The patches of a batch for one key, as one patch. -/
def patch (batch : List (K × P)) (k : K) : P :=
  ((batch.filter fun e => e.1 = k).map Prod.snd).reverse.prod

@[simp] theorem patch_nil (k : K) : patch ([] : List (K × P)) k = 1 := rfl

theorem patch_cons_self (k : K) (p : P) (batch : List (K × P)) :
    patch ((k, p) :: batch) k = patch batch k * p := by
  simp [patch]

theorem patch_cons_of_ne {l : K} (h : l ≠ k) (p : P) (batch : List (K × P)) :
    patch ((l, p) :: batch) k = patch batch k := by
  rw [patch, List.filter_cons_of_neg (by simpa using h)]
  rfl

/-- No patch of the batch is for the key. -/
theorem patch_of_notMem (h : ∀ e ∈ batch, e.1 ≠ k) : patch batch k = 1 := by
  rw [patch, List.filter_eq_nil_iff.mpr fun e he => by simpa using h e he]
  rfl

theorem patch_append (batch batch' : List (K × P)) (k : K) :
    patch (batch ++ batch') k = patch batch' k * patch batch k := by
  simp only [patch, List.filter_append, List.map_append, List.reverse_append, List.prod_append]

theorem load_append (batch batch' : List (K × P)) (n : ℕ) (rows : List R) :
    load key blank (batch ++ batch') n rows =
      load key blank batch' (n + batch.length) (load key blank batch n rows) := by
  induction batch generalizing n rows with
  | nil => rfl
  | cons e batch ih =>
    obtain ⟨k, p⟩ := e
    show load key blank (batch ++ batch') _ _ = _
    rw [ih, List.length_cons, Nat.add_right_comm]
    rfl

/-- Some function of a row, once rows have been put that keep it. -/
theorem map_onConflict {α : Type*} {f : R → α} {new : R} {set : R → R} (hset : ∀ r, f (set r) = f r) :
    (onConflict key new set rows).map f =
      if key new ∈ rows.map key then rows.map f else rows.map f ++ [f new] := by
  have hany : (rows.any fun r => key r = key new) = true ↔ key new ∈ rows.map key := by
    simp only [List.any_eq_true, decide_eq_true_eq, List.mem_map]
  by_cases h : key new ∈ rows.map key
  · rw [onConflict, if_pos (hany.mpr h), if_pos h, List.map_map]
    refine List.map_congr_left fun r _ => ?_
    show f (if _ then _ else _) = f r
    split
    · exact hset r
    · rfl
  · rw [onConflict, if_neg fun he => h (hany.mp he), if_neg h, List.map_append, List.map_singleton]

/-- A row of a table that a row was put in. -/
theorem mem_onConflict {new : R} {set : R → R} (hr : r ∈ onConflict key new set rows) :
    r = new ∨ r ∈ rows ∨ ∃ r₀ ∈ rows, r = set r₀ := by
  rw [onConflict] at hr
  split at hr
  · obtain ⟨r₀, hr₀, rfl⟩ := List.mem_map.mp hr
    split
    · exact Or.inr (Or.inr ⟨r₀, hr₀, rfl⟩)
    · exact Or.inr (Or.inl hr₀)
  · rcases List.mem_append.mp hr with hold | hnew
    · exact Or.inr (Or.inl hold)
    · exact Or.inl (List.mem_singleton.mp hnew)

/-- A row that has the key is patched. -/
theorem put_of_known {new : R} {p : P} (h : key new ∈ rows.map key) :
    put key new p rows = rows.map fun r => if key r = key new then p • r else r := by
  obtain ⟨r, hr, hk⟩ := List.mem_map.mp h
  exact if_pos (List.any_eq_true.mpr ⟨r, hr, decide_eq_true hk⟩)

theorem put_of_new {new : R} {p : P} (h : key new ∉ rows.map key) :
    put key new p rows = rows ++ [p • new] := by
  refine if_neg fun hany => h ?_
  obtain ⟨r, hr, hk⟩ := List.any_eq_true.mp hany
  exact List.mem_map.mpr ⟨r, hr, of_decide_eq_true hk⟩

variable (hsmul : ∀ (p : P) (r : R), key (p • r) = key r) (hblank : ∀ n k, key (blank n k) = k)

include hsmul in
theorem keys_put {new : R} {p : P} : (put key new p rows).map key =
    if key new ∈ rows.map key then rows.map key else rows.map key ++ [key new] := by
  split
  · rename_i h
    rw [put_of_known h, List.map_map]
    refine List.map_congr_left fun r _ => ?_
    show key (if _ then _ else _) = _
    split
    · exact hsmul p r
    · rfl
  · rename_i h
    rw [put_of_new h, List.map_append, List.map_singleton, hsmul]

include hsmul in
theorem mem_keys_put {new : R} {p : P} {l : K} :
    l ∈ (put key new p rows).map key ↔ l ∈ rows.map key ∨ l = key new := by
  rw [keys_put hsmul]
  split
  · rename_i h
    exact ⟨Or.inl, fun hl => hl.elim id fun he => he ▸ h⟩
  · rw [List.mem_append, List.mem_singleton]

include hsmul hblank in
/-- **The keys of a table that a batch was put in.** -/
theorem mem_keys_load {l : K} :
    l ∈ (load key blank batch n rows).map key ↔ l ∈ rows.map key ∨ l ∈ batch.map Prod.fst := by
  induction batch generalizing n rows with
  | nil => exact ⟨Or.inl, fun h => h.elim id nofun⟩
  | cons e batch ih =>
    obtain ⟨k, p⟩ := e
    show l ∈ (load key blank batch _ _).map key ↔ _
    rw [ih, mem_keys_put hsmul, hblank, List.map_cons, List.mem_cons, or_assoc]

include hsmul hblank in
/-- **A table that has all the keys only has its rows patched.** -/
theorem load_of_known (h : ∀ e ∈ batch, e.1 ∈ rows.map key) :
    load key blank batch n rows = rows.map fun r => patch batch (key r) • r := by
  induction batch generalizing n rows with
  | nil =>
    show rows = _
    simp only [patch_nil, one_smul, List.map_id']
  | cons e batch ih =>
    obtain ⟨k, p⟩ := e
    have hk : k ∈ rows.map key := h _ List.mem_cons_self
    have hput : put key (blank n k) p rows = rows.map fun r => if key r = k then p • r else r := by
      rw [put_of_known (by rwa [hblank]), hblank]
    show load key blank batch (n + 1) (put key (blank n k) p rows) = _
    rw [ih, hput, List.map_map]
    · refine List.map_congr_left fun r _ => ?_
      show patch batch (key (if key r = k then p • r else r)) • (if key r = k then p • r else r) = _
      by_cases hr : key r = k
      · rw [if_pos hr, hsmul, hr, patch_cons_self, mul_smul]
      · rw [if_neg hr, patch_cons_of_ne (Ne.symm hr)]
    · intro e he
      exact (mem_keys_put hsmul).mpr (Or.inl (h e (List.mem_cons_of_mem _ he)))

include hsmul hblank in
/-- **The rows of a table that a batch was put in**: the patches for the key have been applied to the
row that there was, or to a blank one if there was none. -/
theorem mem_load (hr : r ∈ load key blank batch n rows) :
    ∃ r₀, r = patch batch (key r) • r₀ ∧ key r₀ = key r ∧
      (r₀ ∈ rows ∨ key r ∉ rows.map key ∧ ∃ m, n ≤ m ∧ m < n + batch.length ∧
        r₀ = blank m (key r)) := by
  induction batch generalizing n rows with
  | nil => exact ⟨r, (one_smul P r).symm, rfl, Or.inl hr⟩
  | cons e batch ih =>
    obtain ⟨k, p⟩ := e
    obtain ⟨r₁, he, hk₁, hr₁⟩ := ih hr
    -- what the first patch of the batch has made of it
    rcases hr₁ with hmem | ⟨hnew, m, hle, hlt, hm⟩
    · by_cases hk : k ∈ rows.map key
      · rw [put_of_known (by rwa [hblank]), hblank] at hmem
        obtain ⟨r₀, hr₀, rfl⟩ := List.mem_map.mp hmem
        refine ⟨r₀, ?_, ?_, Or.inl hr₀⟩
        · split at he
          · rename_i hkey
            rw [if_pos hkey, hsmul, hkey] at hk₁
            rw [← hk₁, patch_cons_self, mul_smul]
            rwa [← hk₁] at he
          · rename_i hkey
            rw [if_neg hkey] at hk₁
            rwa [patch_cons_of_ne fun h => hkey (hk₁.trans h.symm)]
        · rw [← hk₁]
          split
          · exact (hsmul p r₀).symm
          · rfl
      · rw [put_of_new (by rwa [hblank])] at hmem
        rcases List.mem_append.mp hmem with hold | hblank'
        · have hne : k ≠ key r := by
            rintro rfl
            exact hk (List.mem_map.mpr ⟨r₁, hold, hk₁⟩)
          exact ⟨r₁, by rwa [patch_cons_of_ne hne], hk₁, Or.inl hold⟩
        · obtain rfl := List.mem_singleton.mp hblank'
          rw [hsmul, hblank] at hk₁
          refine ⟨blank n k, ?_, (hblank n k).trans hk₁, Or.inr ⟨hk₁ ▸ hk, n, Nat.le_refl n, ?_, ?_⟩⟩
          · rw [← hk₁, patch_cons_self, mul_smul]
            rwa [← hk₁] at he
          · rw [List.length_cons]
            omega
          · rw [hk₁]
    · have hne : k ≠ key r := by
        rintro rfl
        exact hnew ((mem_keys_put hsmul).mpr (Or.inr (hblank n _).symm))
      refine ⟨r₁, by rwa [patch_cons_of_ne hne], hk₁, Or.inr ⟨fun h => hnew ?_, m, ?_, ?_, hm⟩⟩
      · exact (mem_keys_put hsmul).mpr (Or.inl h)
      · omega
      · rw [List.length_cons]
        omega

theorem mem_put_of_mem {new : R} {p : P} (hr : r ∈ rows) :
    (if key r = key new then p • r else r) ∈ put key new p rows := by
  by_cases h : key new ∈ rows.map key
  · rw [put_of_known h]
    exact List.mem_map_of_mem (f := fun r => if key r = key new then p • r else r) hr
  · rw [put_of_new h, if_neg fun he : key r = key new => h (he ▸ List.mem_map_of_mem hr)]
    exact List.mem_append_left _ hr

include hsmul hblank in
/-- **A row that was there is there, patched.** -/
theorem smul_mem_load (hr : r ∈ rows) : patch batch (key r) • r ∈ load key blank batch n rows := by
  induction batch generalizing n rows r with
  | nil =>
    rw [patch_nil, one_smul]
    exact hr
  | cons e batch ih =>
    obtain ⟨k, p⟩ := e
    have hput : (if key r = k then p • r else r) ∈ put key (blank n k) p rows := by
      have hmem := @mem_put_of_mem _ _ _ _ _ _ key _ _ (blank n k) p hr
      rwa [hblank] at hmem
    have hmem := ih (n := n + 1) hput
    by_cases hk : key r = k
    · rw [if_pos hk, hsmul, hk] at hmem
      rwa [hk, patch_cons_self, mul_smul]
    · rw [if_neg hk] at hmem
      rwa [patch_cons_of_ne (Ne.symm hk)]

include hsmul in
/-- What is the same in a row however it is patched is found under its key as before. -/
theorem find_put {α : Type*} {f : R → α} (hf : ∀ (p : P) (r : R), f (p • r) = f r) {new : R} {p : P} :
    ((put key new p rows).find? fun r => key r = k).map f =
      ((rows.find? fun r => key r = k).map f).or (if key new = k then some (f new) else none) := by
  by_cases h : key new ∈ rows.map key
  · have hkey : (fun r => decide (key r = k)) ∘ (fun r => if key r = key new then p • r else r) =
        fun r => decide (key r = k) := by
      funext r
      show decide (key (if _ then _ else _) = k) = _
      split
      · rw [hsmul]
      · rfl
    have hmap : f ∘ (fun r => if key r = key new then p • r else r) = f := by
      funext r
      show f (if _ then _ else _) = _
      split
      · exact hf p r
      · rfl
    rw [put_of_known h, List.find?_map, hkey, Option.map_map, hmap]
    split
    · -- there is one already
      rename_i hk
      obtain ⟨r, hr, hrk⟩ := List.mem_map.mp h
      obtain ⟨r', hr'⟩ : ∃ r', (rows.find? fun r => key r = k) = some r' :=
        Option.isSome_iff_exists.mp (List.find?_isSome.mpr ⟨r, hr, decide_eq_true (hrk.trans hk)⟩)
      rw [hr']
      rfl
    · rw [Option.or_none]
  · rw [put_of_new h, List.find?_append, Option.map_or, List.find?_singleton, hsmul]
    simp only [decide_eq_true_eq, apply_ite (Option.map f), Option.map_some, Option.map_none, hf]

include hsmul in
theorem find_load {α : Type*} {f : R → α} (hf : ∀ (p : P) (r : R), f (p • r) = f r) {v : α}
    (h : (rows.find? fun r => key r = k).map f = some v) :
    ((load key blank batch n rows).find? fun r => key r = k).map f = some v := by
  induction batch generalizing n rows with
  | nil => exact h
  | cons e batch ih =>
    refine ih ?_
    rw [find_put hsmul hf, h]
    rfl

end Tables

section Again

variable {K R P : Type*} [DecidableEq K] [Monoid P] [MulAction P R] {key : R → K}
  {blank : ℕ → K → R} {batch : List (K × P)} {rows : List R} {n : ℕ}

/-- The patches for its key leave a row as it is once they have been put in. -/
theorem patch_smul_of_mem (hidem : ∀ p : P, p * p = p)
    (hsmul : ∀ (p : P) (r : R), key (p • r) = key r) (hblank : ∀ n k, key (blank n k) = k) {r : R}
    (hr : r ∈ load key blank batch n rows) : patch batch (key r) • r = r := by
  obtain ⟨r₀, he, -⟩ := mem_load hsmul hblank hr
  generalize patch batch (key r) = p at he
  rw [he, smul_smul, hidem]

/-- **A batch that is put in again leaves the table as it is**, also when some function has been
applied to its rows in between with which the patches of the batch agree. -/
theorem load_map_load (hidem : ∀ p : P, p * p = p) (hsmul : ∀ (p : P) (r : R), key (p • r) = key r)
    (hblank : ∀ n k, key (blank n k) = k) (m : ℕ) {f : R → R} (hkey : ∀ r, key (f r) = key r)
    (hf : ∀ r ∈ load key blank batch n rows,
      patch batch (key r) • r = r → patch batch (key r) • f r = f r) :
    load key blank batch m ((load key blank batch n rows).map f) =
      (load key blank batch n rows).map f := by
  have hknown : ∀ e ∈ batch, e.1 ∈ ((load key blank batch n rows).map f).map key := by
    intro e he
    rw [List.map_map, show key ∘ f = key from funext hkey]
    exact (mem_keys_load hsmul hblank).mpr (Or.inr (List.mem_map_of_mem he))
  rw [load_of_known hsmul hblank hknown, List.map_map]
  refine List.map_congr_left fun r hr => ?_
  show patch batch (key (f r)) • f r = f r
  rw [hkey]
  exact hf r hr (patch_smul_of_mem hidem hsmul hblank hr)

end Again

/-! ### Columns that are always given -/

/-- A column, as far as it has been given. -/
@[ext] structure Latest (α : Type*) where
  last : Option α

instance {α : Type*} : Monoid (Latest α) where
  one := ⟨none⟩
  mul v w := ⟨v.last.or w.last⟩
  mul_assoc _ _ _ := Latest.ext Option.or_assoc
  one_mul _ := rfl
  mul_one _ := Latest.ext Option.or_none

theorem Latest.mul_self {α : Type*} (v : Latest α) : v * v = v :=
  Latest.ext Option.or_self

end Upsert
