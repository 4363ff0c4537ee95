import Marketplace.Reference.Loading

/-!
# Loads as batches of patches

An upsert of a region gives some of its columns and leaves the others, whether the row is new or not:
it puts a patch under a key (`Marketplace.Reference.Db.upsertZcta_loaded`,
`Marketplace.Reference.Db.upsertPlace_loaded`). A file is therefore a batch of patches
(`Marketplace.Reference.Loaded`), and so are the memberships, of which only the shared area is given.
What stays to be said of the two statements that end a load is which names they clear and what they
count.
-/

namespace Marketplace.Reference

open Search (Point)
open Suggest (RegionKind RegionPlace)

/-! ### Programs that may fail -/

section Fallible

variable {ε α β : Type} {x : Except ε α} {b : β}

theorem map_eq_ok_iff {f : α → β} : x.map f = .ok b ↔ ∃ a, x = .ok a ∧ f a = b := by
  rcases x with e | a
  · exact iff_of_false nofun (by rintro ⟨_, h, _⟩; cases h)
  · exact ⟨fun h => ⟨a, rfl, Except.ok.inj h⟩, by rintro ⟨_, h, rfl⟩; cases h; rfl⟩

theorem bind_eq_ok_iff {f : α → Except ε β} : (x >>= f) = .ok b ↔ ∃ a, x = .ok a ∧ f a = .ok b := by
  rcases x with e | a
  · exact iff_of_false nofun (by rintro ⟨_, h, _⟩; cases h)
  · exact ⟨fun h => ⟨a, rfl, h⟩, by rintro ⟨_, h, hb⟩; cases h; exact hb⟩

end Fallible

/-! ### Patches -/

/-- **What an upsert gives** of a region. -/
@[ext] structure Patch where
  name : Option Text := none
  parentId : Option Uuid := none
  centroid : Option Point := none
  approxRadiusM : Option ℤ := none
  censusClass : Option Text := none
  source : Option Text := none

namespace Patch

instance : Monoid Patch where
  one := {}
  mul p q :=
    { name := p.name.or q.name
      parentId := p.parentId.or q.parentId
      centroid := p.centroid.or q.centroid
      approxRadiusM := p.approxRadiusM.or q.approxRadiusM
      censusClass := p.censusClass.or q.censusClass
      source := p.source.or q.source }
  mul_assoc _ _ _ := Patch.ext Option.or_assoc Option.or_assoc Option.or_assoc Option.or_assoc
    Option.or_assoc Option.or_assoc
  one_mul _ := rfl
  mul_one _ := Patch.ext Option.or_none Option.or_none Option.or_none Option.or_none Option.or_none
    Option.or_none

theorem mul_self (p : Patch) : p * p = p :=
  Patch.ext Option.or_self Option.or_self Option.or_self Option.or_self Option.or_self Option.or_self

instance : MulAction Patch Region where
  smul p r :=
    { r with
      name := p.name.getD r.name
      parentId := p.parentId.or r.parentId
      centroid := p.centroid.getD r.centroid
      approxRadiusM := p.approxRadiusM.or r.approxRadiusM
      censusClass := p.censusClass.or r.censusClass
      source := p.source.getD r.source }
  one_smul _ := rfl
  mul_smul _ _ _ := Region.ext rfl rfl rfl Option.getD_or Option.or_assoc Option.getD_or
    Option.or_assoc Option.or_assoc Option.getD_or rfl

variable {p : Patch} {r : Region}

@[simp] theorem key_smul : (p • r).key = r.key := rfl

@[simp] theorem id_smul : (p • r).id = r.id := rfl

@[simp] theorem kind_smul : (p • r).kind = r.kind := rfl

theorem name_smul : (p • r).name = p.name.getD r.name := rfl

/-- A patch does not touch the count. -/
theorem smul_counted (n : ℕ) : p • Db.counted n r = Db.counted n (p • r) := rfl

end Patch

/-- A region of which nothing has been given. -/
def blank (id : Uuid) (k : RegionKind × Text) : Region :=
  { id := id, kind := k.1, code := k.2, name := k.2, centroid := ⟨0, 0⟩, source := [] }

theorem key_blank (id : Uuid) (k : RegionKind × Text) : (blank id k).key = k := rfl

/-- A patch, and the key of the region that it is put under. -/
abbrev Entry : Type := (RegionKind × Text) × Patch

/-- The row that an entry makes of a blank one keeps the constraints. -/
def Fits (e : Entry) : Prop := (e.2 • blank 0 e.1).check = true

/-- **What `upsert_zcta` gives**: its name, unless that is a placeholder. -/
def zctaEntry (source : Text) (env : Env) (row : RegionRow) : Entry :=
  ((.zcta, row.code),
    { name := if row.name = row.code then none else some row.name
      centroid := some (env.makePoint row.lon row.lat)
      approxRadiusM := row.radiusM
      source := some source })

/-- **What `upsert_place` gives.** -/
def placeEntry (item : Text × Db.Place) : Entry :=
  ((item.2.kind, item.2.code),
    { name := some item.2.name
      parentId := item.2.parentId
      centroid := some item.2.centroid
      censusClass := item.2.censusClass
      source := some censusSource })

/-- **`db'` is `db` after a batch has been put in.** -/
structure Loaded (batch : List Entry) (db db' : Db) : Prop where
  regions : db'.regions = Upsert.load Region.key blank batch db.next db.regions
  next : db'.next = db.next + batch.length
  places : db'.places = db.places
  contractors : db'.contractors = db.contractors
  fits : ∀ e ∈ batch, Fits e

/-- The identifier under a key. -/
def Db.idAt (db : Db) (k : RegionKind × Text) : Option Uuid := (db.findKey k).map Region.id

namespace Loaded

variable {batch batch' : List Entry} {db db' db'' : Db} {k : RegionKind × Text}

theorem nil (db : Db) : Loaded [] db db := ⟨rfl, rfl, rfl, rfl, List.forall_mem_nil _⟩

theorem append (h : Loaded batch db db') (h' : Loaded batch' db' db'') :
    Loaded (batch ++ batch') db db'' where
  regions := by rw [h'.regions, h.regions, h.next, Upsert.load_append]
  next := by rw [h'.next, h.next, List.length_append, Nat.add_assoc]
  places := h'.places.trans h.places
  contractors := h'.contractors.trans h.contractors
  fits e he := (List.mem_append.mp he).elim (h.fits e) (h'.fits e)

/-- **A region that is known keeps its identifier.** -/
theorem idAt_of_known (h : Loaded batch db db') {id : Uuid} (hk : db.idAt k = some id) :
    db'.idAt k = some id := by
  rw [Db.idAt, Db.findKey, h.regions]
  exact Upsert.find_load (fun _ _ => Patch.key_smul) (fun _ _ => Patch.id_smul) hk

theorem mem_keys (h : Loaded batch db db') :
    k ∈ db'.regions.map Region.key ↔ k ∈ db.regions.map Region.key ∨ k ∈ batch.map Prod.fst := by
  rw [h.regions]
  exact Upsert.mem_keys_load (fun _ _ => Patch.key_smul) key_blank

/-- A region that is known is there, with the patches for its key. -/
theorem smul_mem (h : Loaded batch db db') {r : Region} (hr : r ∈ db.regions) :
    Upsert.patch batch r.key • r ∈ db'.regions := by
  rw [h.regions]
  exact Upsert.smul_mem_load (fun _ _ => Patch.key_smul) key_blank hr

end Loaded

/-! ### One upsert -/

section Upserts

variable {db db' : Db} {new : Region} {set : Region → Region} {hid : new.id = db.next}
  {h : new.check = true → Lawful set} {k : RegionKind × Text} {p : Patch}

/-- The constraints are about what is given, and not about the identifier. -/
theorem check_blank (id : Uuid) : (p • blank id k).check = (p • blank 0 k).check := rfl

/-- **An upsert that gives some columns only puts a patch.** -/
theorem loaded_of_upsert (hnew : new = p • blank db.next k) (hset : ∀ r, set r = p • r)
    (hok : db.upsert new set hid h = .ok db') : Loaded [(k, p)] db db' := by
  rw [Db.upsert] at hok
  split at hok
  · rename_i hcheck
    cases hok
    refine ⟨?_, rfl, rfl, rfl, fun e he => ?_⟩
    · show Upsert.onConflict Region.key new set db.regions = _
      rw [show set = fun r => p • r from funext hset, hnew]
      rfl
    · rw [List.mem_singleton.mp he, Fits, ← check_blank db.next, ← hnew]
      exact hcheck
  · cases hok

/-- An upsert that keeps the constraints goes through. -/
theorem exists_upsert (hcheck : new.check = true) : ∃ db', db.upsert new set hid h = .ok db' :=
  ⟨_, dif_pos hcheck⟩

end Upserts

namespace Db

variable {db db' : Db} {env : Env} {row : RegionRow} {source : Text} {item : Text × Place}

/-- A new ZIP-code area has the name that is given, and that is its code if it is a placeholder. -/
theorem zcta_eq (id : Uuid) : zcta id row.code row.name (env.makePoint row.lon row.lat) row.radiusM
    source = (zctaEntry source env row).2 • blank id (zctaEntry source env row).1 := by
  refine Region.ext rfl rfl rfl ?_ Option.or_none.symm rfl Option.or_none.symm rfl rfl rfl
  show row.name = (if row.name = row.code then none else some row.name).getD row.code
  split
  · assumption
  · rfl

theorem setZcta_eq (r : Region) : setZcta row.code row.name (env.makePoint row.lon row.lat)
    row.radiusM source r = (zctaEntry source env row).2 • r := by
  refine Region.ext rfl rfl rfl ?_ rfl rfl rfl rfl rfl rfl
  show (if row.name = row.code then r.name else row.name) =
    (if row.name = row.code then none else some row.name).getD r.name
  split <;> rfl

theorem place_eq (id : Uuid) :
    place id item.2 censusSource = (placeEntry item).2 • blank id (placeEntry item).1 :=
  Region.ext rfl rfl rfl rfl Option.or_none.symm rfl rfl Option.or_none.symm rfl rfl

theorem upsertZcta_loaded
    (h : db.upsertZcta row.code row.name (env.makePoint row.lon row.lat) row.radiusM source =
      .ok db') : Loaded [zctaEntry source env row] db db' :=
  loaded_of_upsert (zcta_eq db.next) setZcta_eq h

theorem upsertPlace_loaded {id : Uuid} (h : db.upsertPlace item.2 censusSource = .ok (id, db')) :
    Loaded [placeEntry item] db db' ∧ db'.idAt (item.2.kind, item.2.code) = some id := by
  obtain ⟨db₁, hdb₁, he⟩ := map_eq_ok_iff.mp h
  cases he
  have hloaded : Loaded [placeEntry item] db db' :=
    loaded_of_upsert (place_eq db.next) (fun _ => rfl) hdb₁
  refine ⟨hloaded, ?_⟩
  cases hk : db.findKey (item.2.kind, item.2.code) with
  | some r => exact hloaded.idAt_of_known (by rw [idAt, hk]; rfl)
  | none =>
    rw [idAt, findKey, hloaded.regions]
    show ((Upsert.put _ _ _ _).find? _).map _ = _
    rw [Upsert.find_put (fun _ _ => Patch.key_smul) (fun _ _ => Patch.id_smul)]
    rw [show db.regions.find? _ = none from hk, key_blank, if_pos rfl]
    rfl

/-- An upsert that keeps the constraints goes through. -/
theorem exists_upsertZcta (h : Fits (zctaEntry source env row)) (db : Db) : ∃ db',
    db.upsertZcta row.code row.name (env.makePoint row.lon row.lat) row.radiusM source = .ok db' :=
  exists_upsert (by rw [zcta_eq, check_blank]; exact h)

theorem exists_upsertPlace (h : Fits (placeEntry item)) (db : Db) :
    ∃ r, db.upsertPlace item.2 censusSource = .ok r := by
  have hcheck : (place db.next item.2 censusSource).check = true := by
    rw [place_eq, check_blank]
    exact h
  obtain ⟨db', hdb'⟩ := exists_upsert hcheck
  exact ⟨_, map_eq_ok_iff.mpr ⟨db', hdb', rfl⟩⟩

end Db

/-! ### Files -/

section Files

variable {env : Env} {db db' : Db} {source : Text} {items : List (Text × Db.Place)}

/-- The rows of a file that the CSV library has read. -/
def zctaEntries (env : Env) (source : Text) (rows : List (Except String RegionRow)) : List Entry :=
  rows.filterMap fun
    | .ok row => some (zctaEntry source env row)
    | .error _ => none

/-- The identifiers of places, as `upsertPlaces` gives them back. -/
def idsOf (db : Db) (items : List (Text × Db.Place)) : List (Text × Uuid) :=
  (items.map fun item => (item.1, (db.idAt (item.2.kind, item.2.code)).getD 0)).reverse

theorem loadRegions_from {rows : List (Except String RegionRow)} {n m : ℕ}
    (h : rows.foldlM (loadRegion env source) (n, db) = .ok (m, db')) :
    Loaded (zctaEntries env source rows) db db' := by
  induction rows generalizing n db with
  | nil =>
    cases h
    exact .nil _
  | cons row rows ih =>
    rw [List.foldlM_cons] at h
    obtain ⟨⟨n', db₁⟩, h₁, hrest⟩ := bind_eq_ok_iff.mp h
    rcases row with e | row
    · cases h₁
    · rw [loadRegion] at h₁
      split at h₁
      · cases h₁
      · obtain ⟨db₂, hdb₂, he⟩ := map_eq_ok_iff.mp h₁
        cases he
        exact (Db.upsertZcta_loaded hdb₂).append (ih hrest)

/-- **`load_regions_inner` puts a batch in.** -/
theorem loadRegionsInner_loaded {rows : List (Except String RegionRow)} {n : ℕ}
    (h : loadRegionsInner env rows source db = .ok (n, db')) :
    Loaded (zctaEntries env source rows) db db' :=
  loadRegions_from h

theorem upsertPlaces_from {ids ids' : List (Text × Uuid)}
    (h : items.foldlM (fun loaded item => (loaded.2.upsertPlace item.2 censusSource).map fun r =>
      ((item.1, r.1) :: loaded.1, r.2)) (ids, db) = .ok (ids', db')) :
    Loaded (items.map placeEntry) db db' ∧ ids' = idsOf db' items ++ ids := by
  induction items generalizing ids db with
  | nil =>
    cases h
    exact ⟨.nil _, rfl⟩
  | cons item items ih =>
    rw [List.foldlM_cons] at h
    obtain ⟨⟨ids₁, db₁⟩, h₁, hrest⟩ := bind_eq_ok_iff.mp h
    obtain ⟨⟨id, db₂⟩, hdb₂, he⟩ := map_eq_ok_iff.mp h₁
    cases he
    obtain ⟨hone, hid⟩ := Db.upsertPlace_loaded hdb₂
    obtain ⟨hloaded, rfl⟩ := ih hrest
    refine ⟨hone.append hloaded, ?_⟩
    -- the region keeps the identifier that was given back
    rw [idsOf, idsOf, List.map_cons, List.reverse_cons, hloaded.idAt_of_known hid, List.append_assoc]
    rfl

/-- **`upsert_place`, for each of some places, puts a batch in**, and gives the identifiers back. -/
theorem upsertPlaces_loaded {ids : List (Text × Uuid)} (h : upsertPlaces items db = .ok (ids, db')) :
    Loaded (items.map placeEntry) db db' ∧ ids = idsOf db' items := by
  obtain ⟨hloaded, hids⟩ := upsertPlaces_from h
  exact ⟨hloaded, hids.trans (List.append_nil _)⟩

theorem exists_upsertPlaces (h : ∀ e ∈ items.map placeEntry, Fits e) (db : Db) :
    ∃ r, upsertPlaces items db = .ok r := by
  suffices ∀ ids, ∃ r, items.foldlM (fun loaded item =>
      (loaded.2.upsertPlace item.2 censusSource).map fun r => ((item.1, r.1) :: loaded.1, r.2))
        (ids, db) = .ok r from this []
  induction items generalizing db with
  | nil => exact fun ids => ⟨_, rfl⟩
  | cons item items ih =>
    intro ids
    obtain ⟨⟨id, db₁⟩, h₁⟩ := Db.exists_upsertPlace (h _ List.mem_cons_self) db
    obtain ⟨r, hr⟩ := ih (fun e he => h e (List.mem_cons_of_mem _ he)) db₁ ((item.1, id) :: ids)
    exact ⟨r, by rw [List.foldlM_cons, h₁]; exact hr⟩

/-- A file that has been loaded into one database loads into every one. -/
theorem exists_loadRegions {rows : List (Except String RegionRow)} {n m : ℕ}
    (h : rows.foldlM (loadRegion env source) (n, db) = .ok (m, db')) (other : Db) (n' : ℕ) :
    ∃ r, rows.foldlM (loadRegion env source) (n', other) = .ok r := by
  induction rows generalizing n db n' other with
  | nil => exact ⟨_, rfl⟩
  | cons row rows ih =>
    rw [List.foldlM_cons] at h
    obtain ⟨⟨n₁, db₁⟩, h₁, hrest⟩ := bind_eq_ok_iff.mp h
    rcases row with e | row
    · cases h₁
    rw [loadRegion] at h₁
    split at h₁
    · cases h₁
    · rename_i hbounds
      obtain ⟨db₂, hdb₂, -⟩ := map_eq_ok_iff.mp h₁
      have hfits := (Db.upsertZcta_loaded hdb₂).fits _ List.mem_cons_self
      obtain ⟨other₁, hother⟩ := Db.exists_upsertZcta hfits other
      obtain ⟨r, hr⟩ := ih hrest other₁ (n' + 1)
      refine ⟨r, ?_⟩
      rw [List.foldlM_cons, loadRegion, if_neg hbounds, hother]
      exact hr

end Files

/-! ### Memberships -/

section Shares

open Upsert (Latest)

instance : MulAction (Latest ℕ) RegionPlace where
  smul p rp := { rp with sharedLandM2 := p.last.getD rp.sharedLandM2 }
  one_smul _ := rfl
  mul_smul _ _ rp := congrArg (RegionPlace.mk rp.regionId rp.placeId) Option.getD_or

/-- A membership of which nothing has been given. -/
def blankPlace (_ : ℕ) (k : Uuid × Uuid) : RegionPlace := ⟨k.1, k.2, 0⟩

/-- **What `link_region_place` gives.** -/
def shareEntry (share : Share) : (Uuid × Uuid) × Latest ℕ :=
  ((share.regionId, share.placeId), ⟨some share.part.toNat⟩)

/-- The memberships, once some shares have been put in. -/
def putShares (shares : List Share) (places : List RegionPlace) : List RegionPlace :=
  Upsert.load pairKey blankPlace (shares.map shareEntry) 0 places

/-- The constraints on a share. -/
def Db.Links (db : Db) (share : Share) : Prop :=
  (0 ≤ share.part ∧ share.regionId ≠ share.placeId) ∧
    share.regionId ∈ db.regions.map Region.id ∧ share.placeId ∈ db.regions.map Region.id

/-- `db'` is `db` with other memberships. -/
structure SameRegions (db db' : Db) : Prop where
  regions : db'.regions = db.regions
  contractors : db'.contractors = db.contractors
  next : db'.next = db.next

variable {db db' : Db} {shares : List Share}

theorem linkRegionPlace_eq_ok {share : Share}
    (h : db.linkRegionPlace share.regionId share.placeId share.part = .ok db') :
    db.Links share ∧ SameRegions db db' ∧
      db'.places = Upsert.put pairKey (blankPlace 0 (shareEntry share).1) (shareEntry share).2
        db.places := by
  rw [Db.linkRegionPlace] at h
  split at h
  · cases h
  · rename_i hcheck
    split at h
    · rename_i hids
      cases h
      rw [not_or, not_lt] at hcheck
      exact ⟨⟨hcheck, hids⟩, ⟨rfl, rfl, rfl⟩, rfl⟩
    · cases h

theorem exists_linkRegionPlace {share : Share} (h : db.Links share) :
    ∃ db', db.linkRegionPlace share.regionId share.placeId share.part = .ok db' := by
  rw [Db.linkRegionPlace, if_neg (by rw [not_or, not_lt]; exact h.1), dif_pos h.2]
  exact ⟨_, rfl⟩

/-- **`link_region_place`, for each of some shares, puts a batch in.** -/
theorem linkShares_eq_ok (h : linkShares shares db = .ok db') :
    (∀ share ∈ shares, db.Links share) ∧ SameRegions db db' ∧
      db'.places = putShares shares db.places := by
  -- the numbers of blank memberships do not matter
  suffices ∀ n, (∀ share ∈ shares, db.Links share) ∧ SameRegions db db' ∧
      db'.places = Upsert.load pairKey blankPlace (shares.map shareEntry) n db.places from this 0
  induction shares generalizing db with
  | nil =>
    cases h
    exact fun n => ⟨nofun, ⟨rfl, rfl, rfl⟩, rfl⟩
  | cons share shares ih =>
    rw [linkShares, List.foldlM_cons] at h
    obtain ⟨db₁, h₁, hrest⟩ := bind_eq_ok_iff.mp h
    obtain ⟨hlinks, hsame, hplaces⟩ := linkRegionPlace_eq_ok h₁
    intro n
    obtain ⟨hlinks', hsame', hplaces'⟩ := ih hrest (n + 1)
    refine ⟨fun other hother => ?_, ⟨hsame'.regions.trans hsame.regions,
      hsame'.contractors.trans hsame.contractors, hsame'.next.trans hsame.next⟩, ?_⟩
    · rcases List.mem_cons.mp hother with rfl | hmem
      · exact hlinks
      · have h := hlinks' other hmem
        rwa [Db.Links, hsame.regions] at h
    · rw [hplaces', hplaces]
      rfl

theorem exists_linkShares (h : ∀ share ∈ shares, db.Links share) :
    ∃ db', linkShares shares db = .ok db' := by
  induction shares generalizing db with
  | nil => exact ⟨db, rfl⟩
  | cons share shares ih =>
    obtain ⟨db₁, h₁⟩ := exists_linkRegionPlace (h share List.mem_cons_self)
    have hsame := (linkRegionPlace_eq_ok h₁).2.1
    have hrest : ∀ other ∈ shares, db₁.Links other := by
      intro other hother
      rw [Db.Links, hsame.regions]
      exact h other (List.mem_cons_of_mem _ hother)
    obtain ⟨db', hdb'⟩ := ih hrest
    exact ⟨db', by rw [linkShares, List.foldlM_cons, h₁]; exact hdb'⟩

/-- **Shares that are put in again leave the memberships as they are.** -/
theorem putShares_putShares (shares : List Share) (places : List RegionPlace) :
    putShares shares (putShares shares places) = putShares shares places := by
  rw [← List.map_id (putShares shares places)]
  exact Upsert.load_map_load Latest.mul_self (fun _ _ => rfl) (fun _ _ => rfl) 0 (fun _ => rfl)
    fun _ _ h => h

end Shares

end Marketplace.Reference
