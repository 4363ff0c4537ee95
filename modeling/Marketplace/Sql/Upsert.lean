import Mathlib.Data.List.Nodup
import Mathlib.Data.List.Perm.Basic

/-!
# `INSERT … ON CONFLICT DO UPDATE`

The rows of a table, as a list, and an insert that names a key: a row whose key is not there yet
is appended, and over one that is there some columns are set (`Sql.upsert`). Several rows are
inserted one after the other (`Sql.upsertAll`).

When the rows that arrive have different keys, none of them sees what another one did:
`Sql.mem_upsertAll` says of each row that is there afterwards where it comes from, by the rows that
were there before. An insert that finds every row, and sets it to what it is, changes nothing
(`Sql.map_upsertAll`).
-/

namespace Sql

variable {R K P : Type*} [DecidableEq K]

section Definitions

variable (key : R → K) (set : R → R → R)

/-- **`INSERT … ON CONFLICT (key) DO UPDATE SET …`**, of one row: what is `set` over a row that is
there may depend on that row, and on the one that arrives. -/
def upsert (rows : List R) (r : R) : List R :=
  if key r ∈ rows.map key then rows.map fun old => if key old = key r then set old r else old
  else rows ++ [r]

/-- The rows that arrive, one after the other. -/
def upsertAll (rows incoming : List R) : List R := incoming.foldl (upsert key set) rows

/-- `ON CONFLICT DO NOTHING`: the row that is there stays. -/
def keep {R : Type*} (old _new : R) : R := old

/-- What the row that arrives ends up as: a row that was there, with its columns set, or the row
itself. -/
def Lands (rows : List R) (r x : R) : Prop :=
  (∃ old ∈ rows, key old = key r ∧ x = set old r) ∨ key r ∉ rows.map key ∧ x = r

end Definitions

variable {key : R → K} {set : R → R → R} {rows incoming : List R} {r r' x : R}

/-- A row is found by its key. -/
theorem find?_key_eq_some {k : K} (h : (rows.map key).Nodup) :
    (rows.find? fun x => key x = k) = some r ↔ r ∈ rows ∧ key r = k := by
  constructor
  · exact fun hr => ⟨List.mem_of_find?_eq_some hr, by simpa using List.find?_some hr⟩
  · rintro ⟨hr, rfl⟩
    rcases hfound : rows.find? fun x => key x = key r with _ | x
    · exact absurd (decide_eq_true rfl) (List.find?_eq_none.mp hfound r hr)
    · have hkey : key x = key r := by simpa using List.find?_some hfound
      rw [List.inj_on_of_nodup_map h (List.mem_of_find?_eq_some hfound) hr hkey]

/-! ### One row -/

theorem mem_upsert :
    x ∈ upsert key set rows r ↔ x ∈ rows ∧ key x ≠ key r ∨ Lands key set rows r x := by
  rw [upsert, Lands]
  split
  next hmem =>
    rw [List.mem_map]
    constructor
    · rintro ⟨old, hold, rfl⟩
      by_cases hkey : key old = key r
      · rw [if_pos hkey]
        exact Or.inr (Or.inl ⟨old, hold, hkey, rfl⟩)
      · rw [if_neg hkey]
        exact Or.inl ⟨hold, hkey⟩
    · rintro (⟨hx, hne⟩ | ⟨old, hold, hkey, rfl⟩ | ⟨hnot, -⟩)
      · exact ⟨x, hx, if_neg hne⟩
      · exact ⟨old, hold, if_pos hkey⟩
      · exact absurd hmem hnot
  next hnot =>
    rw [List.mem_append, List.mem_singleton]
    constructor
    · rintro (hx | rfl)
      · exact Or.inl ⟨hx, fun hkey => hnot (hkey ▸ List.mem_map_of_mem hx)⟩
      · exact Or.inr (Or.inr ⟨hnot, rfl⟩)
    · rintro (⟨hx, -⟩ | ⟨old, hold, hkey, -⟩ | ⟨-, rfl⟩)
      · exact Or.inl hx
      · exact absurd (hkey ▸ List.mem_map_of_mem hold) hnot
      · exact Or.inr rfl

/-- **What holds of the rows that are there, and of those that arrive**, holds of the rows
afterwards. -/
theorem forall_upsertAll {P : R → Prop} (hrows : ∀ x ∈ rows, P x) (hincoming : ∀ x ∈ incoming, P x)
    (hP : ∀ old r, P old → P r → key old = key r → P (set old r)) :
    ∀ x ∈ upsertAll key set rows incoming, P x := by
  rw [upsertAll]
  induction incoming generalizing rows with
  | nil => exact hrows
  | cons r incoming ih =>
    have hr := hincoming r List.mem_cons_self
    refine ih (fun x hx => ?_) fun x hx => hincoming x (List.mem_cons_of_mem _ hx)
    rcases mem_upsert.mp hx with ⟨hx, -⟩ | ⟨old, hold, hkey, rfl⟩ | ⟨-, rfl⟩
    · exact hrows x hx
    · exact hP old r (hrows old hold) hr hkey
    · exact hr

section Keys

variable (hset : ∀ old r, key old = key r → key (set old r) = key r)
include hset

omit [DecidableEq K] in
/-- A row that arrives keeps its key. -/
theorem key_of_lands (h : Lands key set rows r x) : key x = key r := by
  rcases h with ⟨old, -, hkey, rfl⟩ | ⟨-, rfl⟩
  · exact hset old r hkey
  · rfl

/-- The keys of the rows that are there do not change. -/
theorem map_key_upsert_of_mem (h : key r ∈ rows.map key) :
    (upsert key set rows r).map key = rows.map key := by
  rw [upsert, if_pos h, List.map_map]
  refine List.map_congr_left fun old _ => ?_
  by_cases hkey : key old = key r
  · rw [Function.comp_apply, if_pos hkey, hset old r hkey, hkey]
  · rw [Function.comp_apply, if_neg hkey]

theorem mem_map_key_upsert {k : K} :
    k ∈ (upsert key set rows r).map key ↔ k ∈ rows.map key ∨ k = key r := by
  by_cases h : key r ∈ rows.map key
  · rw [map_key_upsert_of_mem hset h]
    exact ⟨Or.inl, fun hk => hk.elim id fun hk => hk ▸ h⟩
  · rw [upsert, if_neg h, List.map_append, List.mem_append, List.map_singleton, List.mem_singleton]

/-- **The key stays a key.** -/
theorem nodup_upsert (h : (rows.map key).Nodup) : ((upsert key set rows r).map key).Nodup := by
  by_cases hr : key r ∈ rows.map key
  · rw [map_key_upsert_of_mem hset hr]
    exact h
  · rw [upsert, if_neg hr, List.map_append, List.map_singleton]
    exact List.nodup_append.mpr ⟨h, List.nodup_singleton _, fun k hk k' hk' hkk' =>
      hr (by rw [← List.mem_singleton.mp hk', ← hkk']; exact hk)⟩

/-- A row that arrives does not see what one with another key did. -/
theorem lands_upsert (hne : key r' ≠ key r) :
    Lands key set (upsert key set rows r) r' x ↔ Lands key set rows r' x := by
  have hfree : key r' ∉ (upsert key set rows r).map key ↔ key r' ∉ rows.map key := by
    rw [mem_map_key_upsert hset, not_or, and_iff_left hne]
  rw [Lands, Lands, hfree]
  refine or_congr_left ⟨?_, ?_⟩
  · rintro ⟨old, hold, hkey, rfl⟩
    rcases mem_upsert.mp hold with ⟨hold, -⟩ | hlands
    · exact ⟨old, hold, hkey, rfl⟩
    · exact absurd (hkey.symm.trans (key_of_lands hset hlands)) hne
  · rintro ⟨old, hold, hkey, rfl⟩
    exact ⟨old, mem_upsert.mpr (Or.inl ⟨hold, fun h => hne (hkey.symm.trans h)⟩), hkey, rfl⟩

/-! ### Several rows -/

/-- **The key stays a key**, over several rows. -/
theorem nodup_upsertAll (h : (rows.map key).Nodup) :
    ((upsertAll key set rows incoming).map key).Nodup := by
  rw [upsertAll]
  induction incoming generalizing rows with
  | nil => exact h
  | cons r incoming ih => exact ih (nodup_upsert hset h)

theorem mem_map_key_upsertAll {k : K} :
    k ∈ (upsertAll key set rows incoming).map key ↔
      k ∈ rows.map key ∨ k ∈ incoming.map key := by
  rw [upsertAll]
  induction incoming generalizing rows with
  | nil => simp
  | cons r incoming ih =>
    rw [List.foldl_cons, ih, mem_map_key_upsert hset, List.map_cons, List.mem_cons, or_assoc]

/-- **Where a row comes from**, when the rows that arrive have different keys: it was there, or it
is what one of those that arrive ends up as. -/
theorem mem_upsertAll (hnodup : (incoming.map key).Nodup) :
    x ∈ upsertAll key set rows incoming ↔
      x ∈ rows ∧ key x ∉ incoming.map key ∨ ∃ r ∈ incoming, Lands key set rows r x := by
  rw [upsertAll]
  induction incoming generalizing rows with
  | nil => simp
  | cons r incoming ih =>
    obtain ⟨hr, hnodup⟩ := List.nodup_cons.mp hnodup
    rw [List.foldl_cons, ih hnodup, mem_upsert, List.map_cons, List.mem_cons, not_or]
    constructor
    · rintro (⟨⟨hx, hne⟩ | hlands, hnot⟩ | ⟨r', hr', hlands⟩)
      · exact Or.inl ⟨hx, hne, hnot⟩
      · exact Or.inr ⟨r, List.mem_cons_self, hlands⟩
      · have hne : key r' ≠ key r := fun h => hr (h ▸ List.mem_map_of_mem hr')
        exact Or.inr ⟨r', List.mem_cons_of_mem _ hr', (lands_upsert hset hne).mp hlands⟩
    · rintro (⟨hx, hne, hnot⟩ | ⟨r', hr', hlands⟩)
      · exact Or.inl ⟨Or.inl ⟨hx, hne⟩, hnot⟩
      · rcases List.mem_cons.mp hr' with rfl | hr'
        · exact Or.inl ⟨Or.inr hlands, by rwa [key_of_lands hset hlands]⟩
        · have hne : key r' ≠ key r := fun h => hr (h ▸ List.mem_map_of_mem hr')
          exact Or.inr ⟨r', hr', (lands_upsert hset hne).mpr hlands⟩

omit hset in
theorem length_upsert :
    (upsert key set rows r).length = rows.length + if key r ∈ rows.map key then 0 else 1 := by
  rw [upsert]
  split <;> simp

omit hset in
/-- No row is lost. -/
theorem length_le_upsertAll : rows.length ≤ (upsertAll key set rows incoming).length := by
  rw [upsertAll]
  induction incoming generalizing rows with
  | nil => exact Nat.le_refl _
  | cons r incoming ih =>
    have hlength := @length_upsert R K _ key set rows r
    have hrest := @ih (upsert key set rows r)
    rw [List.foldl_cons]
    omega

omit hset in
theorem length_upsertAll_le :
    (upsertAll key set rows incoming).length ≤ rows.length + incoming.length := by
  rw [upsertAll]
  induction incoming generalizing rows with
  | nil => exact Nat.le_refl _
  | cons r incoming ih =>
    have hlength := @length_upsert R K _ key set rows r
    have hrest := @ih (upsert key set rows r)
    rw [List.foldl_cons, List.length_cons]
    split at hlength <;> omega

/-- **There is a new row for every one that arrives** only if no key is there, and none arrives
twice. -/
theorem length_upsertAll_eq_iff :
    (upsertAll key set rows incoming).length = rows.length + incoming.length ↔
      (∀ r ∈ incoming, key r ∉ rows.map key) ∧ (incoming.map key).Nodup := by
  rw [upsertAll]
  induction incoming generalizing rows with
  | nil => simp
  | cons r incoming ih =>
    have hlength := @length_upsert R K _ key set rows r
    have hrest := @ih (upsert key set rows r)
    have hle := @length_upsertAll_le R K _ key set (upsert key set rows r) incoming
    rw [upsertAll] at hle
    simp only [mem_map_key_upsert hset, not_or, forall_and] at hrest
    rw [List.foldl_cons, List.length_cons, List.forall_mem_cons, List.map_cons, List.nodup_cons]
    by_cases hmem : key r ∈ rows.map key
    · rw [if_pos hmem] at hlength
      refine iff_of_false (by omega) fun h => h.1.1 hmem
    · rw [if_neg hmem] at hlength
      have hother : (∀ r' ∈ incoming, key r' ≠ key r) ↔ key r ∉ incoming.map key := by
        simp only [List.mem_map, not_exists, not_and]
      rw [hother] at hrest
      constructor
      · intro h
        obtain ⟨⟨hfree, hnot⟩, hnodup⟩ := hrest.mp (by omega)
        exact ⟨⟨hmem, hfree⟩, hnot, hnodup⟩
      · rintro ⟨⟨-, hfree⟩, hnot, hnodup⟩
        have := hrest.mpr ⟨⟨hfree, hnot⟩, hnodup⟩
        omega

/-- **An insert that finds every row, and sets it to what it is, changes nothing** of what `p`
reads. -/
theorem map_upsertAll {p q : R → P} (hfound : ∀ r ∈ incoming, key r ∈ rows.map key)
    (hq : ∀ old r, key old = key r → p (set old r) = q r)
    (hsame : ∀ old ∈ rows, ∀ r ∈ incoming, key old = key r → p old = q r) :
    (upsertAll key set rows incoming).map p = rows.map p := by
  rw [upsertAll]
  induction incoming generalizing rows with
  | nil => rfl
  | cons r incoming ih =>
    have hr := hfound r List.mem_cons_self
    have hmap : (upsert key set rows r).map p = rows.map p := by
      rw [upsert, if_pos hr, List.map_map]
      refine List.map_congr_left fun old hold => ?_
      by_cases hkey : key old = key r
      · rw [Function.comp_apply, if_pos hkey, hq old r hkey,
          hsame old hold r List.mem_cons_self hkey]
      · rw [Function.comp_apply, if_neg hkey]
    rw [List.foldl_cons, ih, hmap]
    · intro r' hr'
      rw [map_key_upsert_of_mem hset hr]
      exact hfound r' (List.mem_cons_of_mem _ hr')
    · intro old hold r' hr' hkey
      rcases mem_upsert.mp hold with ⟨hold, -⟩ | ⟨old', hold', hkey', rfl⟩ | ⟨hnot, -⟩
      · exact hsame old hold r' (List.mem_cons_of_mem _ hr') hkey
      · rw [hset old' r hkey', ← hkey'] at hkey
        rw [hq old' r hkey', ← hsame old' hold' r List.mem_cons_self hkey',
          hsame old' hold' r' (List.mem_cons_of_mem _ hr') hkey]
      · exact absurd hr hnot

end Keys

end Sql
