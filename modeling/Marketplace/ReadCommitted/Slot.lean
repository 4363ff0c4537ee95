import Mathlib.Data.List.Basic
import Mathlib.Data.List.Nodup
import Mathlib.Tactic.Common

/-!
# Rows and tables under row locks

The store of a transactional database, one row at a time. A row is a
`ReadCommitted.Slot`: the version every snapshot sees, and over it the version of
the one open transaction that holds the row's lock, if any. A table is a family of
slots with the list of the identifiers it has ever held, so that a scan has
something to run through.

Everything a process can do to a row is one of four things
(`ReadCommitted.Slot.Move`): leave it, write a version over it – for which nobody
else may hold it –, publish its own version, or drop it. Two consequences carry
the interleaving arguments built on this file: a row held by another process does
not move (`ReadCommitted.Slot.Move.eq_of_held`), and what snapshots see changes
only when a holder publishes (`ReadCommitted.Slot.Move.committed_cases`).
-/

namespace ReadCommitted

/-! ### One row -/

/-- **A row**: the version every snapshot sees, and the holder of the row's lock
with the version that holder has put over it. A version `none` is no row. -/
@[ext]
structure Slot (ι R : Type) where
  /-- The committed version. -/
  committed : Option R := none
  /-- The open transaction that holds the row, and its own version. -/
  lock : Option (ι × Option R) := none
  deriving DecidableEq

namespace Slot

variable {ι R : Type} [DecidableEq ι]

/-- What process `i` sees of the row: its own version if it holds the row, the
committed one otherwise. -/
def visible (i : ι) (x : Slot ι R) : Option R :=
  match x.lock with
  | some (j, v) => if j = i then v else x.committed
  | none => x.committed

/-- Nobody but `i` holds the row, so `i` need not wait for it. -/
def freeFor (i : ι) (x : Slot ι R) : Bool :=
  match x.lock with
  | some (j, _) => j = i
  | none => true

/-- The row with version `v` put over it by `i`. -/
def write (i : ι) (v : Option R) (x : Slot ι R) : Slot ι R := { x with lock := some (i, v) }

/-- The row once `i` has committed. -/
def commit (i : ι) (x : Slot ι R) : Slot ι R :=
  match x.lock with
  | some (j, v) => if j = i then { committed := v } else x
  | none => x

/-- The row once `i` has rolled back. -/
def rollback (i : ι) (x : Slot ι R) : Slot ι R :=
  match x.lock with
  | some (j, _) => if j = i then { committed := x.committed } else x
  | none => x

variable {i j : ι} {x y : Slot ι R} {u v : Option R}

omit [DecidableEq ι] in
@[simp] theorem write_committed : (x.write i v).committed = x.committed := rfl

omit [DecidableEq ι] in
@[simp] theorem write_lock : (x.write i v).lock = some (i, v) := rfl

@[simp] theorem visible_write : (x.write i v).visible i = v := by simp [visible]

@[simp] theorem commit_write : (x.write i v).commit i = { committed := v } := by simp [commit]

theorem visible_of_unlocked (h : x.lock = none) : x.visible i = x.committed := by
  simp [visible, h]

theorem visible_of_held (h : x.lock = some (i, v)) : x.visible i = v := by simp [visible, h]

theorem visible_of_other (h : x.lock = some (j, v)) (hne : j ≠ i) : x.visible i = x.committed := by
  simp [visible, h, hne]

/-- What a process sees is its own version or the committed one. -/
theorem visible_cases (i : ι) (x : Slot ι R) :
    x.lock = some (i, x.visible i) ∨ x.visible i = x.committed := by
  rcases hx : x.lock with _ | ⟨j, v⟩
  · exact Or.inr (visible_of_unlocked hx)
  · rcases eq_or_ne j i with rfl | hne
    · exact Or.inl (by rw [visible_of_held hx])
    · exact Or.inr (visible_of_other hx hne)

theorem freeFor_iff : x.freeFor i = true ↔ ∀ j v, x.lock = some (j, v) → j = i := by
  rcases hx : x.lock with _ | ⟨j, v⟩ <;> simp [freeFor, hx]

/-- A row nobody else holds is seen as it will be published. -/
theorem lock_eq_of_freeFor (h : x.freeFor i = true) :
    x.lock = none ∨ ∃ v, x.lock = some (i, v) := by
  rcases hx : x.lock with _ | ⟨j, v⟩
  · exact Or.inl rfl
  · exact Or.inr ⟨v, by rw [freeFor_iff.mp h j v hx]⟩

theorem commit_of_held (h : x.lock = some (i, v)) : x.commit i = { committed := v } := by
  simp [commit, h]

theorem commit_of_other (h : x.lock = some (j, v)) (hne : j ≠ i) : x.commit i = x := by
  simp [commit, h, hne]

theorem commit_of_unlocked (h : x.lock = none) : x.commit i = x := by simp [commit, h]

theorem rollback_of_held (h : x.lock = some (i, v)) :
    x.rollback i = { committed := x.committed } := by
  simp [rollback, h]

theorem rollback_of_other (h : x.lock = some (j, v)) (hne : j ≠ i) : x.rollback i = x := by
  simp [rollback, h, hne]

theorem rollback_of_unlocked (h : x.lock = none) : x.rollback i = x := by simp [rollback, h]

@[simp] theorem rollback_committed : (x.rollback i).committed = x.committed := by
  rcases hx : x.lock with _ | ⟨j, v⟩
  · rw [rollback_of_unlocked hx]
  · rcases eq_or_ne j i with rfl | hne
    · rw [rollback_of_held hx]
    · rw [rollback_of_other hx hne]

/-- A lock that survives a rollback is somebody else's, and was there before. -/
theorem lock_of_rollback (h : (x.rollback i).lock = some (j, v)) :
    j ≠ i ∧ x.lock = some (j, v) := by
  rcases hx : x.lock with _ | ⟨k, w⟩
  · rw [rollback_of_unlocked hx, hx] at h
    cases h
  · rcases eq_or_ne k i with rfl | hne
    · rw [rollback_of_held hx] at h
      cases h
    · rw [rollback_of_other hx hne, hx] at h
      cases h
      exact ⟨hne, rfl⟩

/-- A lock that survives a commit is somebody else's, and was there before. -/
theorem lock_of_commit (h : (x.commit i).lock = some (j, v)) : j ≠ i ∧ x.lock = some (j, v) := by
  rcases hx : x.lock with _ | ⟨k, w⟩
  · rw [commit_of_unlocked hx, hx] at h
    cases h
  · rcases eq_or_ne k i with rfl | hne
    · rw [commit_of_held hx] at h
      cases h
    · rw [commit_of_other hx hne, hx] at h
      cases h
      exact ⟨hne, rfl⟩

/-- Committing publishes what the process saw. -/
theorem commit_committed (i : ι) (x : Slot ι R) : (x.commit i).committed = x.visible i := by
  rcases hx : x.lock with _ | ⟨j, v⟩
  · rw [commit_of_unlocked hx, visible_of_unlocked hx]
  · rcases eq_or_ne j i with rfl | hne
    · rw [commit_of_held hx, visible_of_held hx]
    · rw [commit_of_other hx hne, visible_of_other hx hne]

/-! ### What a process can do to a row -/

/-- **A move of process `i` on a row**: nothing, a version put over a row nobody
else holds, or the end of the transaction either way. -/
inductive Move (i : ι) : Slot ι R → Slot ι R → Prop
  /-- The row is left alone. -/
  | stay (x : Slot ι R) : Move i x x
  /-- A version is put over the row. -/
  | write {x : Slot ι R} (h : x.freeFor i = true) (v : Option R) : Move i x (x.write i v)
  /-- The transaction commits. -/
  | commit (x : Slot ι R) : Move i x (x.commit i)
  /-- The transaction rolls back. -/
  | rollback (x : Slot ι R) : Move i x (x.rollback i)
  /-- A version is put over the row and committed at once. -/
  | autocommit {x : Slot ι R} (h : x.freeFor i = true) (v : Option R) :
      Move i x { committed := v }

/-- **A row held by another process does not move.** -/
theorem Move.eq_of_held (h : Move i x y) (hx : x.lock = some (j, v)) (hne : j ≠ i) : y = x := by
  cases h with
  | stay => rfl
  | write hf => exact absurd (freeFor_iff.mp hf j v hx) hne
  | commit => exact commit_of_other hx hne
  | rollback => exact rollback_of_other hx hne
  | autocommit hf => exact absurd (freeFor_iff.mp hf j v hx) hne

/-- **What snapshots see changes only when the process publishes**, and then the
row is left unlocked. -/
theorem Move.committed_cases (h : Move i x y) :
    y.committed = x.committed ∨ (x.freeFor i = true ∧ y.lock = none) := by
  cases h with
  | stay => exact Or.inl rfl
  | write => exact Or.inl rfl
  | commit =>
    rcases hx : x.lock with _ | ⟨j, v⟩
    · exact Or.inl (by rw [commit_of_unlocked hx])
    · rcases eq_or_ne j i with rfl | hne
      · exact Or.inr ⟨by simp [freeFor, hx], by rw [commit_of_held hx]⟩
      · exact Or.inl (by rw [commit_of_other hx hne])
  | rollback => exact Or.inl rollback_committed
  | autocommit hf => exact Or.inr ⟨hf, rfl⟩

/-- A lock of another process was there before the move. -/
theorem Move.lock_of_other (h : Move i x y) (hy : y.lock = some (j, v)) (hne : j ≠ i) :
    x.lock = some (j, v) := by
  cases h with
  | stay => exact hy
  | write => exact absurd (Prod.mk.inj (Option.some.inj hy)).1.symm hne
  | commit => exact (lock_of_commit hy).2
  | rollback => exact (lock_of_rollback hy).2
  | autocommit => cases hy

end Slot

/-! ### Tables -/

/-- **A table**: a slot for every identifier, and the identifiers that have ever
been used, each listed once, outside which every slot is empty. -/
structure Table (ι K R : Type) where
  /-- The identifiers that have been used. -/
  keys : List K
  /-- The row under each identifier. -/
  slot : K → Slot ι R
  /-- No identifier is listed twice. -/
  nodup : keys.Nodup
  /-- An identifier that has not been used has no row and no lock. -/
  empty_of_not_mem : ∀ k, k ∉ keys → slot k = {}

namespace Table

variable {ι K R : Type} [DecidableEq ι] [DecidableEq K]

/-- The empty table. -/
def empty : Table ι K R := ⟨[], fun _ => {}, List.nodup_nil, fun _ _ => rfl⟩

/-- The table with these rows, published and unlocked, each under its identifier. -/
def ofList (id : R → K) (rows : List R) (h : (rows.map id).Nodup) : Table ι K R where
  keys := rows.map id
  slot := fun k => ⟨rows.find? fun r => id r = k, none⟩
  nodup := h
  empty_of_not_mem := by
    intro k hk
    have hnone : rows.find? (fun r => decide (id r = k)) = none := by
      refine List.find?_eq_none.mpr fun r hr he => hk ?_
      exact List.mem_map.mpr ⟨r, hr, of_decide_eq_true he⟩
    rw [hnone]

/-- The table with the row under `k` replaced. -/
def put (k : K) (x : Slot ι R) (t : Table ι K R) : Table ι K R where
  keys := if k ∈ t.keys then t.keys else t.keys ++ [k]
  slot := fun l => if l = k then x else t.slot l
  nodup := by
    by_cases hk : k ∈ t.keys
    · rw [if_pos hk]
      exact t.nodup
    · rw [if_neg hk]
      exact List.nodup_append.mpr ⟨t.nodup, by simp, by
        rintro l hl m hm rfl
        exact hk (List.mem_singleton.mp hm ▸ hl)⟩
  empty_of_not_mem := by
    intro l hl
    by_cases hk : k ∈ t.keys
    · rw [if_pos hk] at hl
      have hne : l ≠ k := fun he => hl (he ▸ hk)
      rw [if_neg hne]
      exact t.empty_of_not_mem l hl
    · rw [if_neg hk, List.mem_append, not_or] at hl
      have hne : l ≠ k := fun he => hl.2 (he ▸ List.mem_singleton.mpr rfl)
      rw [if_neg hne]
      exact t.empty_of_not_mem l hl.1

/-- The table once `i` has committed. -/
def commit (i : ι) (t : Table ι K R) : Table ι K R where
  keys := t.keys
  slot := fun k => (t.slot k).commit i
  nodup := t.nodup
  empty_of_not_mem := fun k hk => by rw [t.empty_of_not_mem k hk]; rfl

/-- The table once `i` has rolled back. -/
def rollback (i : ι) (t : Table ι K R) : Table ι K R where
  keys := t.keys
  slot := fun k => (t.slot k).rollback i
  nodup := t.nodup
  empty_of_not_mem := fun k hk => by rw [t.empty_of_not_mem k hk]; rfl

/-- The row process `i` sees under `k`. -/
def row (i : ι) (k : K) (t : Table ι K R) : Option R := (t.slot k).visible i

/-- The identifiers of the rows process `i` sees and that satisfy `p`. -/
def scan (i : ι) (p : K → R → Bool) (t : Table ι K R) : List K :=
  t.keys.filter fun k => (t.row i k).any (p k)

/-- The rows process `i` sees. -/
def rows (i : ι) (t : Table ι K R) : List R := t.keys.filterMap fun k => t.row i k

/-- The rows that every snapshot sees. -/
def published (t : Table ι K R) : List R := t.keys.filterMap fun k => (t.slot k).committed

variable {i : ι} {k l : K} {x : Slot ι R} {t : Table ι K R} {p : K → R → Bool}

omit [DecidableEq ι] [DecidableEq K] in
@[simp] theorem slot_empty : (empty : Table ι K R).slot k = {} := rfl

omit [DecidableEq ι] in
@[simp] theorem slot_put_self : (t.put k x).slot k = x := if_pos rfl

omit [DecidableEq ι] in
theorem slot_put_of_ne (h : l ≠ k) : (t.put k x).slot l = t.slot l := if_neg h

omit [DecidableEq ι] in
theorem slot_put : (t.put k x).slot l = if l = k then x else t.slot l := rfl

omit [DecidableEq K] in
@[simp] theorem slot_commit : (t.commit i).slot k = (t.slot k).commit i := rfl

omit [DecidableEq K] in
@[simp] theorem slot_rollback : (t.rollback i).slot k = (t.slot k).rollback i := rfl

/-- **A scan finds exactly the rows the process sees.** -/
theorem mem_scan : k ∈ t.scan i p ↔ ∃ r, t.row i k = some r ∧ p k r = true := by
  rw [scan, List.mem_filter, Option.any_eq_true]
  refine ⟨fun h => h.2, fun h => ⟨?_, h⟩⟩
  by_contra hk
  obtain ⟨r, hr, -⟩ := h
  rw [row, t.empty_of_not_mem k hk] at hr
  cases hr

omit [DecidableEq ι] in
theorem slot_ofList_of_mem {id : R → K} {rows : List R} {h : (rows.map id).Nodup} {r : R}
    (hr : r ∈ rows) : (ofList id rows h : Table ι K R).slot (id r) = ⟨some r, none⟩ := by
  have hsome : (rows.find? fun s => decide (id s = id r)).isSome :=
    List.find?_isSome.mpr ⟨r, hr, decide_eq_true rfl⟩
  obtain ⟨s, hs⟩ := Option.isSome_iff_exists.mp hsome
  have hid : id s = id r := by simpa using List.find?_some hs
  have heq : s = r := List.inj_on_of_nodup_map h (List.mem_of_find?_eq_some hs) hr hid
  subst heq
  change Slot.mk _ none = _
  rw [hs]

omit [DecidableEq ι] in
theorem mem_of_slot_ofList {id : R → K} {rows : List R} {h : (rows.map id).Nodup} {r : R}
    (hr : ((ofList id rows h : Table ι K R).slot k).committed = some r) : r ∈ rows ∧ id r = k :=
  ⟨List.mem_of_find?_eq_some hr, by simpa using List.find?_some (show rows.find? _ = _ from hr)⟩

theorem mem_rows {r : R} : r ∈ t.rows i ↔ ∃ k, t.row i k = some r := by
  rw [rows, List.mem_filterMap]
  refine ⟨fun ⟨k, _, h⟩ => ⟨k, h⟩, fun ⟨k, h⟩ => ⟨k, ?_, h⟩⟩
  by_contra hk
  rw [row, t.empty_of_not_mem k hk] at h
  cases h

omit [DecidableEq ι] [DecidableEq K] in
theorem mem_published {r : R} : r ∈ t.published ↔ ∃ k, (t.slot k).committed = some r := by
  rw [published, List.mem_filterMap]
  refine ⟨fun ⟨k, _, h⟩ => ⟨k, h⟩, fun ⟨k, h⟩ => ⟨k, ?_, h⟩⟩
  by_contra hk
  rw [t.empty_of_not_mem k hk] at h
  cases h

/-- What one step of process `i` can do to a table: each row makes a move of `i`. -/
def Moves (i : ι) (t t' : Table ι K R) : Prop := ∀ k, (t.slot k).Move i (t'.slot k)

omit [DecidableEq K] in
/-- What another process holds, and that it holds nothing else, survives a step. -/
theorem Moves.lock_iff {j : ι} {t t' : Table ι K R} (h : Moves j t t') (hne : j ≠ i)
    {v : Option R} : (t'.slot k).lock = some (i, v) ↔ (t.slot k).lock = some (i, v) := by
  constructor
  · exact fun hlock => (h k).lock_of_other hlock hne.symm
  · intro hlock
    rw [(h k).eq_of_held hlock hne.symm]
    exact hlock

omit [DecidableEq K] in
theorem Moves.refl (i : ι) (t : Table ι K R) : Moves i t t := fun _ => .stay _

omit [DecidableEq K] in
theorem moves_commit (i : ι) (t : Table ι K R) : Moves i t (t.commit i) := fun _ => .commit _

omit [DecidableEq K] in
theorem moves_rollback (i : ι) (t : Table ι K R) : Moves i t (t.rollback i) :=
  fun _ => .rollback _

theorem moves_put (h : (t.slot k).Move i x) : Moves i t (t.put k x) := by
  intro l
  rcases eq_or_ne l k with rfl | hne
  · rw [slot_put_self]
    exact h
  · rw [slot_put_of_ne hne]
    exact .stay _

end Table

end ReadCommitted
