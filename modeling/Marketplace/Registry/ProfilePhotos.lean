import Marketplace.Registry.Listings
import Mathlib.Data.Finset.Option

/-!
# The photo that a photo replaces

The statement that sets the photo of a listing, and the one that clears it, are to return the key
that was stored before, so that their callers delete the object under it. The first reads the key
from the snapshot that it starts with; the second returns the column that it has just emptied, and
so nothing (`Marketplace.Registry.PhotoCall.run`).

Over a sequence of calls, what is displaced is handed over exactly if nothing is ever cleared that
is stored (`Marketplace.Registry.photos_handedOver_iff`). Where it is, the store keeps one object,
the current one (`Marketplace.Registry.objects_eq`); where it is not, the object of a photo that
was removed stays (`Marketplace.Registry.photos_not_handedOver`).
-/

namespace Marketplace.Registry

/-! ### Statements that return something -/

/-- **An `UPDATE … RETURNING` of one row**: what it sets, and what it returns, of the row in the
snapshot that it starts with, and of the row that it has written. -/
structure UpdateReturning (R β : Type) where
  set : R → R
  returning : R → R → β

/-- What a statement returns, and the row that it leaves. -/
def UpdateReturning.run {R β : Type} (u : UpdateReturning R β) (r : R) : β × R :=
  (u.returning r (u.set r), u.set r)

/-- The key of the photo of a listing. -/
def Contractor.photoStorageKey (c : Contractor) : Option (Uuid × Uuid) :=
  c.photo.map ProfilePhoto.storageKey

/-- The statement of `set_photo`: the old key is read in a CTE. -/
def setPhotoStatement (photo : ProfilePhoto) : UpdateReturning Contractor (Option (Uuid × Uuid)) where
  set := (Change.photo (some photo)).apply
  returning := fun previous _ => previous.photoStorageKey

/-- The statement of `clear_photo`. -/
def clearPhotoStatement : UpdateReturning Contractor (Option (Uuid × Uuid)) where
  set := (Change.photo none).apply
  returning := fun _ written => written.photoStorageKey

/-- A call that writes the photo of a listing. -/
inductive PhotoCall
  /-- `set_photo`. -/
  | setPhoto (photo : ProfilePhoto)
  /-- `clear_photo`. -/
  | clearPhoto
  deriving DecidableEq

namespace PhotoCall

/-- The key that a call stores. -/
def key : PhotoCall → Option (Uuid × Uuid)
  | .setPhoto photo => some photo.storageKey
  | .clearPhoto => none

/-- **What a call returns**, and the row that it leaves. -/
def run : PhotoCall → Contractor → Option (Uuid × Uuid) × Contractor
  | .setPhoto photo, c =>
    let previous := (setPhotoStatement photo).run c
    (previous.1.filter fun old => old ≠ photo.storageKey, previous.2)
  | .clearPhoto, c => clearPhotoStatement.run c

/-- What is stored after a call is what it stores. -/
@[simp] theorem stored_run (call : PhotoCall) (c : Contractor) :
    (call.run c).2.photoStorageKey = call.key := by
  cases call <;> rfl

@[simp] theorem returned_setPhoto (photo : ProfilePhoto) (c : Contractor) :
    ((setPhoto photo).run c).1 = c.photoStorageKey.filter fun old => old ≠ photo.storageKey :=
  rfl

/-- **Clearing a photo returns nothing.** -/
@[simp] theorem returned_clearPhoto (c : Contractor) : (clearPhoto.run c).1 = none := rfl

end PhotoCall

/-! ### Sequences of calls -/

section Calls

variable (c : Contractor) (calls : List PhotoCall)

/-- The row after some calls. -/
def afterCalls : Contractor := calls.foldl (fun c call => (call.run c).2) c

/-- The key that is stored before call number `n`. -/
def storedBefore (n : ℕ) : Option (Uuid × Uuid) :=
  (afterCalls c (calls.take n)).photoStorageKey

/-- What call number `n` returns. -/
def returnedBy (n : ℕ) : Option (Uuid × Uuid) :=
  calls[n]?.bind fun call => (call.run (afterCalls c (calls.take n))).1

/-- Call number `n` displaces a key: it is stored before the call, and not after it. -/
def Displaces (n : ℕ) (k : Uuid × Uuid) : Prop :=
  storedBefore c calls n = some k ∧ storedBefore c calls (n + 1) ≠ some k

/-- **What is displaced is handed over**: a key that was stored, and is not at the end, is returned
by the call that displaced it, and by no other; and nothing else is returned. -/
structure HandedOver : Prop where
  displaced : ∀ n k, storedBefore c calls n = some k →
    storedBefore c calls calls.length ≠ some k →
      ∃ m, Displaces c calls m k ∧ ∀ m', returnedBy c calls m' = some k ↔ m' = m
  current : ∀ n k, returnedBy c calls n = some k → Displaces c calls n k

/-- The keys of the calls are new, and differ. -/
def DistinctKeys : Prop :=
  (c.photoStorageKey.toList ++ calls.filterMap PhotoCall.key).Nodup

variable {c calls} {n : ℕ} {k : Uuid × Uuid} {call : PhotoCall}

theorem afterCalls_append (pre post : List PhotoCall) :
    afterCalls c (pre ++ post) = afterCalls (afterCalls c pre) post :=
  List.foldl_append

@[simp] theorem storedBefore_zero : storedBefore c calls 0 = c.photoStorageKey := rfl

/-- After a call, what it stores is stored. -/
theorem storedBefore_succ (h : calls[n]? = some call) : storedBefore c calls (n + 1) = call.key := by
  rw [storedBefore, List.take_add_one, h, afterCalls_append]
  exact PhotoCall.stored_run _ _

/-- After the last call nothing changes. -/
theorem storedBefore_succ_of_none (h : calls[n]? = none) :
    storedBefore c calls (n + 1) = storedBefore c calls n := by
  rw [storedBefore, List.take_add_one, h, Option.toList_none, List.append_nil, storedBefore]

theorem storedBefore_of_length_le (h : calls.length ≤ n) :
    storedBefore c calls n = storedBefore c calls calls.length := by
  rw [storedBefore, List.take_of_length_le h, storedBefore, List.take_length]

/-- What is stored has been there from the beginning, or a call has stored it. -/
theorem exists_call_of_stored (h : storedBefore c calls n = some k) :
    c.photoStorageKey = some k ∨ ∃ j < n, ∃ call, calls[j]? = some call ∧ call.key = some k := by
  induction n with
  | zero => exact .inl h
  | succ n ih =>
    rcases hcall : calls[n]? with _ | call
    · rw [storedBefore_succ_of_none hcall] at h
      exact (ih h).imp_right fun ⟨j, hj, hkey⟩ => ⟨j, hj.trans n.lt_succ_self, hkey⟩
    · rw [storedBefore_succ hcall] at h
      exact .inr ⟨n, n.lt_succ_self, call, hcall, h⟩

/-- What is stored at one time and not at a later one is displaced between the two. -/
theorem exists_displaces {m : ℕ} (hn : storedBefore c calls n = some k)
    (hm : storedBefore c calls m ≠ some k) (h : n ≤ m) :
    ∃ j, n ≤ j ∧ j < m ∧ Displaces c calls j k := by
  induction m, h using Nat.le_induction with
  | base => exact absurd hn hm
  | succ m h ih =>
    by_cases hstored : storedBefore c calls m = some k
    · exact ⟨m, h, m.lt_succ_self, hstored, hm⟩
    · obtain ⟨j, hnj, hjm, hj⟩ := ih hstored
      exact ⟨j, hnj, hjm.trans m.lt_succ_self, hj⟩

/-- What is not stored at one time, and is at a later one, a call between the two stores. -/
theorem exists_call_between {m : ℕ} (hn : storedBefore c calls n ≠ some k)
    (hm : storedBefore c calls m = some k) (h : n ≤ m) :
    ∃ j, n ≤ j ∧ ∃ call, calls[j]? = some call ∧ call.key = some k := by
  induction m, h using Nat.le_induction with
  | base => exact absurd hm hn
  | succ m h ih =>
    rcases hcall : calls[m]? with _ | call
    · rw [storedBefore_succ_of_none hcall] at hm
      exact ih hm
    · rw [storedBefore_succ hcall] at hm
      exact ⟨m, h, call, hcall, hm⟩

section Distinct

variable (hdistinct : DistinctKeys c calls)
include hdistinct

/-- A key is stored by one call at most. -/
theorem call_unique {j j' : ℕ} {call call' : PhotoCall} (hj : calls[j]? = some call)
    (hj' : calls[j']? = some call') (hkey : call.key = some k) (hkey' : call'.key = some k) :
    j = j' := by
  have hpairwise := List.pairwise_filterMap.mp (List.nodup_append.mp hdistinct).2.1
  rw [List.pairwise_iff_getElem] at hpairwise
  obtain ⟨hlt, hget⟩ := List.getElem?_eq_some_iff.mp hj
  obtain ⟨hlt', hget'⟩ := List.getElem?_eq_some_iff.mp hj'
  rcases Nat.lt_trichotomy j j' with h | h | h
  · exact absurd rfl (hpairwise j j' hlt hlt' h k (hget ▸ hkey) k (hget' ▸ hkey'))
  · exact h
  · exact absurd rfl (hpairwise j' j hlt' hlt h k (hget' ▸ hkey') k (hget ▸ hkey))

/-- The key that is there from the beginning is stored by no call. -/
theorem not_key_of_initial {j : ℕ} (h : c.photoStorageKey = some k) (hj : calls[j]? = some call) :
    call.key ≠ some k := by
  intro hkey
  refine (List.nodup_append.mp hdistinct).2.2 k ?_ k ?_ rfl
  · rw [h]
    exact List.mem_singleton.mpr rfl
  · exact List.mem_filterMap.mpr ⟨call, List.mem_of_getElem? hj, hkey⟩

/-- **A key that has been displaced does not come back.** -/
theorem not_stored_of_displaces {m : ℕ} (hn : Displaces c calls n k) (h : n < m) :
    storedBefore c calls m ≠ some k := by
  intro hm
  obtain ⟨j, hnj, call, hcall, hkey⟩ := exists_call_between hn.2 hm h
  rcases exists_call_of_stored hn.1 with hinitial | ⟨j', hj'n, call', hcall', hkey'⟩
  · exact not_key_of_initial hdistinct hinitial hcall hkey
  · have hsame := call_unique hdistinct hcall hcall' hkey hkey'
    omega

/-- A key is displaced once. -/
theorem displaces_unique {m : ℕ} (hn : Displaces c calls n k) (hm : Displaces c calls m k) :
    n = m := by
  rcases Nat.lt_trichotomy n m with h | h | h
  · exact absurd hm.1 (not_stored_of_displaces hdistinct hn h)
  · exact h
  · exact absurd hn.1 (not_stored_of_displaces hdistinct hm h)

/-- **What is displaced is handed over** exactly if no call clears what is stored. -/
theorem handedOver_iff_unstored :
    HandedOver c calls ↔ ∀ n, calls[n]? = some .clearPhoto → storedBefore c calls n = none := by
  constructor
  · intro h n hcall
    by_contra hstored
    obtain ⟨k, hk⟩ := Option.ne_none_iff_exists'.mp hstored
    have hdisplaces : Displaces c calls n k := by
      refine ⟨hk, ?_⟩
      rw [storedBefore_succ hcall]
      exact (Option.some_ne_none k).symm
    have hlt : n < calls.length := (List.getElem?_eq_some_iff.mp hcall).1
    obtain ⟨m, hm, hreturned⟩ :=
      h.displaced n k hk (not_stored_of_displaces hdistinct hdisplaces hlt)
    -- the call that clears it displaces it, and returns nothing
    have hreturn := (hreturned n).mpr (displaces_unique hdistinct hdisplaces hm)
    rw [returnedBy, hcall] at hreturn
    cases hreturn
  · intro hcleared
    have hreturned (n : ℕ) (k : Uuid × Uuid) :
        returnedBy c calls n = some k ↔ Displaces c calls n k := by
      rw [returnedBy, Displaces]
      rcases hcall : calls[n]? with _ | _ | _
      · rw [storedBefore_succ_of_none hcall]
        exact iff_of_false (by simp) fun hboth => hboth.2 hboth.1
      · rename_i photo
        rw [storedBefore_succ hcall, Option.bind_some, PhotoCall.returned_setPhoto,
          Option.filter_eq_some_iff, PhotoCall.key, ← storedBefore]
        refine and_congr_right fun _ => ?_
        rw [decide_eq_true_eq, ne_comm]
        simp
      · have hnone := hcleared n hcall
        rw [hnone, Option.bind_some, PhotoCall.returned_clearPhoto]
        simp
    refine ⟨fun n k hn hend => ?_, fun n k => (hreturned n k).mp⟩
    have hle : n ≤ calls.length := by
      by_contra hlt
      exact hend (storedBefore_of_length_le (not_le.mp hlt).le ▸ hn)
    obtain ⟨m, -, -, hm⟩ := exists_displaces hn hend hle
    refine ⟨m, hm, fun m' => ?_⟩
    rw [hreturned]
    exact ⟨fun hm' => displaces_unique hdistinct hm' hm, fun hsame => hsame ▸ hm⟩

end Distinct

/-- Once something is stored it stays so, if nothing that is stored is cleared. -/
theorem stored_stays (h : ∀ n, calls[n]? = some .clearPhoto → storedBefore c calls n = none)
    {m : ℕ} (hnm : n ≤ m) (hn : storedBefore c calls n ≠ none) : storedBefore c calls m ≠ none := by
  induction m, hnm using Nat.le_induction with
  | base => exact hn
  | succ m hnm ih =>
    rcases hcall : calls[m]? with _ | _ | _
    · rwa [storedBefore_succ_of_none hcall]
    · rw [storedBefore_succ hcall]
      exact Option.some_ne_none _
    · exact absurd (h m hcall) ih

/-- **Nothing that is stored is cleared** exactly if every clearing comes before anything is
stored. -/
theorem unstored_iff :
    (∀ n, calls[n]? = some .clearPhoto → storedBefore c calls n = none) ↔
      ∀ pre post, calls = pre ++ .clearPhoto :: post →
        c.photo = none ∧ ∀ call ∈ pre, call = .clearPhoto := by
  constructor
  · rintro h pre post rfl
    have hcall : (pre ++ .clearPhoto :: post)[pre.length]? = some .clearPhoto := by simp
    have hnone := h _ hcall
    constructor
    · by_contra hphoto
      refine stored_stays h (Nat.zero_le _) ?_ hnone
      rw [storedBefore_zero, Contractor.photoStorageKey]
      simpa using hphoto
    · intro call hmem
      obtain ⟨j, hj, rfl⟩ := List.mem_iff_getElem.mp hmem
      have hget : (pre ++ .clearPhoto :: post)[j]? = some pre[j] := by
        rw [List.getElem?_append_left hj, List.getElem?_eq_getElem hj]
      rcases hset : pre[j] with photo | _
      · refine absurd hnone (stored_stays h (Nat.succ_le_of_lt hj) ?_)
        rw [storedBefore_succ hget, hset]
        exact Option.some_ne_none _
      · rfl
  · intro h n hcall
    obtain ⟨hlt, hget⟩ := List.getElem?_eq_some_iff.mp hcall
    have hsplit : calls = calls.take n ++ .clearPhoto :: calls.drop (n + 1) := by
      rw [← hget, List.cons_getElem_drop_succ, List.take_append_drop]
    obtain ⟨hphoto, hall⟩ := h _ _ hsplit
    have hstored : c.photoStorageKey = none := by rw [Contractor.photoStorageKey, hphoto]; rfl
    -- the calls before are clearings of what is not there
    cases n with
    | zero => exact hstored
    | succ m =>
      have hm : m < calls.length := m.lt_succ_self.trans hlt
      rw [storedBefore_succ (List.getElem?_eq_getElem hm), hall calls[m] ?_]
      · rfl
      · rw [List.mem_take_iff_getElem]
        exact ⟨m, by omega, rfl⟩

/-- **Displaced photos are handed over** exactly if every clearing comes before anything is stored:
no photo at the start, and no call before it that sets one. -/
theorem photos_handedOver_iff (c : Contractor) (calls : List PhotoCall)
    (hdistinct : DistinctKeys c calls) :
    HandedOver c calls ↔ ∀ pre post, calls = pre ++ .clearPhoto :: post →
      c.photo = none ∧ ∀ call ∈ pre, call = .clearPhoto :=
  (handedOver_iff_unstored hdistinct).trans unstored_iff

/-! ### The objects -/

/-- A call as its caller makes it: the object under a new key is put first, and the one under the
key that is returned is deleted. -/
def PhotoCall.serve (s : Contractor × Finset (Uuid × Uuid)) (call : PhotoCall) :
    Contractor × Finset (Uuid × Uuid) :=
  ((call.run s.1).2, (call.key.toFinset ∪ s.2) \ (call.run s.1).1.toFinset)

/-- A call that clears nothing that is stored leaves the current object. -/
theorem objects_serve (h : call = .clearPhoto → c.photoStorageKey = none) :
    (call.serve (c, c.photoStorageKey.toFinset)).2 =
      (call.serve (c, c.photoStorageKey.toFinset)).1.photoStorageKey.toFinset := by
  ext k
  rw [PhotoCall.serve, PhotoCall.stored_run]
  rcases call with photo | _
  · simp only [PhotoCall.key, PhotoCall.returned_setPhoto, Finset.mem_sdiff, Finset.mem_union,
      Option.mem_toFinset, Option.mem_def, Option.filter_eq_some_iff, decide_eq_true_eq,
      Option.some.injEq]
    constructor
    · rintro ⟨rfl | hold, hkept⟩
      · rfl
      · by_contra hne
        exact hkept ⟨hold, fun hsame => hne hsame.symm⟩
    · rintro rfl
      exact ⟨.inl rfl, fun hreturned => hreturned.2 rfl⟩
  · simp [h rfl, PhotoCall.key]

/-- **Where nothing that is stored is cleared, the store keeps one object**: the current one. -/
theorem objects_eq (h : ∀ n, calls[n]? = some .clearPhoto → storedBefore c calls n = none) :
    (calls.foldl PhotoCall.serve (c, c.photoStorageKey.toFinset)).2 =
      (calls.foldl PhotoCall.serve (c, c.photoStorageKey.toFinset)).1.photoStorageKey.toFinset := by
  induction calls generalizing c with
  | nil => rfl
  | cons call calls ih =>
    have hfirst : call = .clearPhoto → c.photoStorageKey = none := by
      rintro rfl
      exact h 0 rfl
    have hnext : call.serve (c, c.photoStorageKey.toFinset) =
        ((call.run c).2, (call.run c).2.photoStorageKey.toFinset) :=
      Prod.ext rfl (objects_serve hfirst)
    rw [List.foldl_cons, hnext]
    exact ih fun n hcall => h (n + 1) hcall

end Calls

/-! ### A photo that is removed -/

/-- A listing without a photo. -/
def unpictured : Contractor :=
  SourceFacts.row ⟨1, "Reed Plumbing".toList, "reed-plumbing".toList, none, none⟩

/-- A photo of it. -/
def portrait (n : ℕ) : ProfilePhoto := ⟨(7, n), 640, 480⟩

/-- A photo that is replaced: its key is returned by the call that sets the next one. -/
theorem photos_handedOver_replaced :
    returnedBy unpictured [.setPhoto (portrait 1), .setPhoto (portrait 2)] 1 = some (7, 1) ∧
      HandedOver unpictured [.setPhoto (portrait 1), .setPhoto (portrait 2)] := by
  refine ⟨rfl, (photos_handedOver_iff _ _ ?_).mpr fun pre post h => ?_⟩
  · exact List.nodup_cons.mpr ⟨by decide, List.nodup_singleton _⟩
  · have hmem : PhotoCall.clearPhoto ∈
        [PhotoCall.setPhoto (portrait 1), PhotoCall.setPhoto (portrait 2)] := by
      rw [h]
      exact List.mem_append_right _ List.mem_cons_self
    exact absurd hmem (by decide)

/-- **A photo that is removed is not handed over**: nothing is returned, and its object stays. -/
theorem photos_not_handedOver :
    DistinctKeys unpictured [.setPhoto (portrait 1), .clearPhoto] ∧
      ¬ HandedOver unpictured [.setPhoto (portrait 1), .clearPhoto] ∧
        ([PhotoCall.setPhoto (portrait 1), .clearPhoto].foldl PhotoCall.serve (unpictured, ∅)).2 =
          {(7, 1)} := by
  refine ⟨List.nodup_singleton _, fun h => ?_, by decide⟩
  obtain ⟨m, hm, hreturned⟩ := h.displaced 1 (7, 1) rfl (Option.some_ne_none _).symm
  have hreturn := (hreturned m).mpr rfl
  have hnone : ∀ n, returnedBy unpictured [.setPhoto (portrait 1), .clearPhoto] n = none := by
    intro n
    rcases n with _ | _ | n <;> rfl
  rw [hnone m] at hreturn
  cases hreturn

end Marketplace.Registry
