import Marketplace.Reference.Counts

/-!
# What ZIP-code areas are called

A ZIP-code area is called what some file has called it, or by its code, in every run
(`Marketplace.Reference.name_given`). Files without names, of which the gazetteer is one, and loads of
places take no name away, unless a city that the area is in has come to carry it
(`Marketplace.Reference.name_kept`).
-/

namespace Marketplace.Reference

open Suggest (RegionKind RegionPlace)

variable {env : Env} {db db' : Db} {files : Files} {state : Text} {minShare : ℚ}
  {report : PlacesLoaded} {z : Region} {name code : Text}

/-- The command gives a ZIP-code area a name. -/
def Command.Gives (code name : Text) : Command → Prop
  | .loadRegions rows _ => ∃ row, .ok row ∈ rows ∧ row.code = code ∧ row.name = name ∧ name ≠ code
  | _ => False

/-- A region is in a city of some name. -/
def Db.InCity (db : Db) (id : Uuid) (name : Text) : Prop :=
  ∃ rp ∈ db.places, rp.regionId = id ∧
    ∃ p ∈ db.regions, p.id = rp.placeId ∧ p.kind = .city ∧ p.name = name

instance (db : Db) (id : Uuid) (name : Text) : Decidable (db.InCity id name) :=
  inferInstanceAs (Decidable (∃ rp ∈ db.places, rp.regionId = id ∧
    ∃ p ∈ db.regions, p.id = rp.placeId ∧ p.kind = .city ∧ p.name = name))

/-! ### One command -/

/-- A name that a batch gives is given by one of its patches. -/
theorem name_patch {batch : List Entry} {k : RegionKind × Text}
    (h : (Upsert.patch batch k).name = some name) : ∃ e ∈ batch, e.1 = k ∧ e.2.name = some name := by
  induction batch with
  | nil => cases h
  | cons e batch ih =>
    obtain ⟨l, p⟩ := e
    by_cases hl : l = k
    · obtain rfl := hl
      rw [Upsert.patch_cons_self] at h
      rcases Option.or_eq_some_iff.mp h with hlater | ⟨-, hfirst⟩
      · obtain ⟨e, he, hek⟩ := ih hlater
        exact ⟨e, List.mem_cons_of_mem _ he, hek⟩
      · exact ⟨(l, p), List.mem_cons_self, rfl, hfirst⟩
    · rw [Upsert.patch_cons_of_ne hl] at h
      obtain ⟨e, he, hek⟩ := ih h
      exact ⟨e, List.mem_cons_of_mem _ he, hek⟩

theorem gives_of_patch {rows : List (Except String RegionRow)} {source : Text}
    {k : RegionKind × Text} (h : (Upsert.patch (zctaEntries env source rows) k).name = some name) :
    (Command.loadRegions rows source).Gives k.2 name := by
  obtain ⟨e, he, rfl, hname⟩ := name_patch h
  obtain ⟨row, hrow, hentry⟩ := List.mem_filterMap.mp he
  cases row with
  | error => cases hentry
  | ok row =>
    cases hentry
    have hif : (if row.name = row.code then none else some row.name) = some name := hname
    split at hif
    · cases hif
    · rename_i hne
      cases hif
      exact ⟨row, hrow, rfl, rfl, hne⟩

/-- A ZIP-code area, after files have been loaded. -/
theorem name_loadRegions {rows : List (Except String RegionRow)} {source : Text}
    (h : Loaded (zctaEntries env source rows) db db') (hz : z ∈ db.regions) :
    ∃ z' ∈ db'.regions, (z'.id = z.id ∧ z'.key = z.key) ∧
      (z'.name = z.name ∨ (Command.loadRegions rows source).Gives z.code z'.name) := by
  refine ⟨_, h.smul_mem hz, ⟨rfl, rfl⟩, ?_⟩
  rw [Patch.name_smul]
  cases hname : (Upsert.patch (zctaEntries env source rows) z.key).name with
  | none => exact Or.inl rfl
  | some name => exact Or.inr (gives_of_patch hname)

/-- A ZIP-code area, after places have been loaded. -/
theorem PlacesRun.name_eq (run : PlacesRun env files state minShare db report db')
    (hz : z ∈ db.regions) (hkind : z.kind = .zcta) :
    ∃ z' ∈ db'.regions, (z'.id = z.id ∧ z'.key = z.key) ∧
      (z'.name = z.name ∨ z'.name = z.code ∧ db'.InCity z.id z.name) := by
  have hmid : z ∈ run.mid.regions := by
    have hmem := run.loaded.smul_mem hz
    rwa [patch_of_zcta hkind, one_smul] at hmem
  have hmem : run.ending z ∈ db'.regions := by
    rw [run.regions_eq]
    exact List.mem_map_of_mem hmid
  refine ⟨run.ending z, hmem, ⟨run.relabels_ending.id z, run.relabels_ending.key z⟩, ?_⟩
  by_cases hred : run.linked.redundant z = true
  · refine Or.inr ⟨?_, ?_⟩
    · rw [ending, Db.clearName_of_redundant hred]
      rfl
    · -- the city that carries the name carries it still
      rw [Db.redundant, Bool.and_eq_true, List.any_eq_true] at hred
      obtain ⟨-, rp, hrp, hcity⟩ := hred
      rw [Bool.and_eq_true, List.any_eq_true] at hcity
      obtain ⟨hregion, p, hp, hcarries⟩ := hcity
      simp only [Bool.and_eq_true, decide_eq_true_eq] at hregion hcarries
      obtain ⟨⟨hplace, hkind'⟩, hname⟩ := hcarries
      obtain ⟨n, he⟩ := run.relabels_ending.eq_of_kind hp (by rw [hkind']; decide)
      refine ⟨rp, run.places_eq ▸ hrp, hregion, run.ending p, ?_, ?_⟩
      · rw [run.regions_eq, ← run.same.regions]
        exact List.mem_map_of_mem hp
      · rw [he]
        exact ⟨hplace, hkind', hname⟩
  · refine Or.inl ?_
    rw [ending, Db.clearName_of_not hred]
    rfl

/-- **What a command does to the name of a ZIP-code area**: nothing, or it gives it another one, or
it takes it away because a city that the area is in carries it. -/
theorem name_run (command : Command) (hz : z ∈ db.regions) (hkind : z.kind = .zcta) :
    ∃ z' ∈ (command.run env db).regions, (z'.id = z.id ∧ z'.key = z.key) ∧
      (z'.name = z.name ∨ command.Gives z.code z'.name ∨
        z'.name = z.code ∧ (command.run env db).InCity z.id z.name) := by
  have hstays : ∃ z' ∈ db.regions, (z'.id = z.id ∧ z'.key = z.key) ∧
      (z'.name = z.name ∨ command.Gives z.code z'.name ∨
        z'.name = z.code ∧ db.InCity z.id z.name) := ⟨z, hz, ⟨rfl, rfl⟩, Or.inl rfl⟩
  cases command with
  | loadRegions rows source =>
    rw [Command.run]
    rcases hload : loadRegionsInner env rows source db with e | ⟨n, db'⟩
    · exact hstays
    · obtain ⟨z', hz', hsame, hname⟩ := name_loadRegions (loadRegionsInner_loaded hload) hz
      exact ⟨z', hz', hsame, hname.imp id Or.inl⟩
  | loadPlaces files state minShare =>
    rw [Command.run]
    rcases hload : loadPlacesInner env files state minShare db with e | ⟨report, db'⟩
    · exact hstays
    · obtain ⟨run⟩ := exists_placesRun hload
      obtain ⟨z', hz', hsame, hname⟩ := run.name_eq hz hkind
      exact ⟨z', hz', hsame, hname.imp id Or.inr⟩
  | refreshSupply =>
    have hregions := db.refreshRegionSupply_regions
    refine ⟨Db.counted (db.supply z) z, ?_, ⟨rfl, rfl⟩, Or.inl rfl⟩
    rw [Command.run, hregions]
    exact List.mem_map_of_mem (f := fun r => Db.counted (db.supply r) r) hz
  | changeListings contractors => exact hstays

/-- Where the name of a ZIP-code area has been before a load of places. -/
theorem PlacesRun.name_origin (run : PlacesRun env files state minShare db report db')
    (hz : z ∈ db'.regions) (hkind : z.kind = .zcta) :
    z.name = z.code ∨ ∃ z₀ ∈ db.regions, z₀.key = z.key ∧ z₀.name = z.name := by
  rw [run.regions_eq] at hz
  obtain ⟨z₁, hz₁, rfl⟩ := List.mem_map.mp hz
  have hkey : (run.ending z₁).key = z₁.key := run.relabels_ending.key z₁
  have hkind₁ : z₁.kind = .zcta := (congrArg Prod.fst hkey).symm.trans hkind
  by_cases hred : run.linked.redundant z₁ = true
  · refine Or.inl ?_
    rw [ending, Db.clearName_of_redundant hred]
    rfl
  · have hname : (run.ending z₁).name = z₁.name := by
      rw [ending, Db.clearName_of_not hred]
      rfl
    rw [run.loaded.regions] at hz₁
    obtain ⟨z₀, he, hkey₀, hz₀ | ⟨-, m, -, -, rfl⟩⟩ :=
      Upsert.mem_load (fun _ _ => Patch.key_smul) key_blank hz₁
    · rw [patch_of_zcta hkind₁, one_smul] at he
      exact Or.inr ⟨z₀, hz₀, hkey₀.trans hkey.symm, he ▸ hname.symm⟩
    · -- no ZIP-code area is new
      rw [patch_of_zcta hkind₁, one_smul] at he
      have hcode : z₁.name = z₁.code := (congrArg Region.name he).trans (congrArg Region.code he).symm
      exact Or.inl (hname.trans (hcode.trans (congrArg Prod.snd hkey).symm))

/-- Where the name of a ZIP-code area comes from. -/
theorem name_origin (command : Command) (hz : z ∈ (command.run env db).regions)
    (hkind : z.kind = .zcta) : z.name = z.code ∨ command.Gives z.code z.name ∨
      ∃ z₀ ∈ db.regions, z₀.key = z.key ∧ z₀.name = z.name := by
  cases command with
  | loadRegions rows source =>
    rw [Command.run] at hz
    rcases hload : loadRegionsInner env rows source db with e | ⟨n, db'⟩
    · rw [hload] at hz
      exact Or.inr (Or.inr ⟨z, hz, rfl, rfl⟩)
    · rw [hload] at hz
      have hmem : z ∈ Upsert.load Region.key blank _ _ _ := (loadRegionsInner_loaded hload).regions ▸ hz
      obtain ⟨z₀, he, hkey, hz₀⟩ := Upsert.mem_load (fun _ _ => Patch.key_smul) key_blank hmem
      have hname : z.name = (Upsert.patch (zctaEntries env source rows) z.key).name.getD z₀.name :=
        (congrArg Region.name he).trans Patch.name_smul
      cases hpatch : (Upsert.patch (zctaEntries env source rows) z.key).name with
      | some name =>
        rw [hpatch] at hname
        exact Or.inr (Or.inl (hname ▸ gives_of_patch hpatch))
      | none =>
        rw [hpatch] at hname
        rcases hz₀ with hold | ⟨-, m, -, -, rfl⟩
        · exact Or.inr (Or.inr ⟨z₀, hold, hkey, hname.symm⟩)
        · exact Or.inl hname
  | loadPlaces files state minShare =>
    rw [Command.run] at hz
    rcases hload : loadPlacesInner env files state minShare db with e | ⟨report, db'⟩
    · rw [hload] at hz
      exact Or.inr (Or.inr ⟨z, hz, rfl, rfl⟩)
    · rw [hload] at hz
      obtain ⟨run⟩ := exists_placesRun hload
      exact (run.name_origin hz hkind).imp id Or.inr
  | refreshSupply =>
    rw [Command.run, db.refreshRegionSupply_regions] at hz
    obtain ⟨z₀, hz₀, rfl⟩ := List.mem_map.mp hz
    exact Or.inr (Or.inr ⟨z₀, hz₀, rfl, rfl⟩)
  | changeListings contractors => exact Or.inr (Or.inr ⟨z, hz, rfl, rfl⟩)

/-! ### Whole runs -/

/-- **A ZIP-code area is called by its code, or what some file has called it**, whatever commands have
been run. -/
theorem name_given (commands : List Command) {z : Region}
    (hz : z ∈ (runAll env commands .empty).regions) (hkind : z.kind = .zcta) :
    z.name = z.code ∨ ∃ command ∈ commands, command.Gives z.code z.name := by
  induction commands using List.reverseRecOn generalizing z with
  | nil => cases hz
  | append_singleton commands command ih =>
    rw [runAll_concat] at hz
    rcases name_origin command hz hkind with hcode | hgives | ⟨z₀, hz₀, hkey, hname⟩
    · exact Or.inl hcode
    · exact Or.inr ⟨command, List.mem_append_right _ List.mem_cons_self, hgives⟩
    · have hcode : z₀.code = z.code := congrArg Prod.snd hkey
      rw [← hname, ← hcode]
      refine (ih hz₀ ((congrArg Prod.fst hkey).trans hkind)).imp id ?_
      rintro ⟨earlier, hmem, hgives⟩
      exact ⟨earlier, List.mem_append_left _ hmem, hgives⟩

/-- The ZIP-code area, under a name of its own. -/
def RegionRow.magnoliaPark : RegionRow := ⟨"91506".toList, "Magnolia Park".toList, 34, -118, none⟩

/-- The ZIP-code area in the gazetteer, which has no names. -/
def RegionRow.gazetteer : RegionRow := ⟨"91506".toList, "91506".toList, 34, -118, some 1200⟩

/-- The ZIP-code area under its own name. -/
theorem name_given_magnoliaPark : ∃ z,
    (runAll .plain [.loadRegions [.ok .magnoliaPark] "hand".toList] .empty).regions = [z] ∧
      z.name = "Magnolia Park".toList ∧ (z.name = z.code ∨
        ∃ command ∈ [Command.loadRegions [.ok .magnoliaPark] "hand".toList],
          command.Gives z.code z.name) := by
  obtain ⟨z, hz⟩ : ∃ z, (runAll .plain [.loadRegions [.ok .magnoliaPark] "hand".toList]
      .empty).regions = [z] := List.length_eq_one_iff.mp (by decide +kernel)
  have hcolumns : (runAll .plain [.loadRegions [.ok .magnoliaPark] "hand".toList]
      .empty).regions.map (fun r => (r.kind, r.name)) = [(.zcta, "Magnolia Park".toList)] := by
    decide +kernel
  rw [hz] at hcolumns
  obtain ⟨hkind, hname⟩ := Prod.mk.inj (List.singleton_inj.mp hcolumns)
  exact ⟨z, hz, hname, name_given _ (hz ▸ List.mem_singleton_self z) hkind⟩

/-- **A name that a ZIP-code area has been given stays, and is shown**, whatever else is loaded and
loaded again, as long as no file gives it another one and no city that it is in comes to carry it. -/
theorem name_kept (commands : List Command) (hz : z ∈ db.regions) (hkind : z.kind = .zcta)
    (hname : z.name ≠ z.code)
    (hgives : ∀ command ∈ commands, ∀ name, command.Gives z.code name → name = z.name)
    (hcity : ∀ k, ¬ (runAll env (commands.take (k + 1)) db).InCity z.id z.name) :
    ∃ z' ∈ (runAll env commands db).regions, (z'.id = z.id ∧ z'.key = z.key) ∧ z'.name = z.name ∧
      (runAll env commands db).shownName z' = z.name := by
  induction commands generalizing db z with
  | nil =>
    refine ⟨z, hz, ⟨rfl, rfl⟩, rfl, ?_⟩
    rw [Db.shownName, if_neg hname]
    rfl
  | cons command commands ih =>
    obtain ⟨z₁, hz₁, ⟨hid, hkey⟩, hcases⟩ := @name_run env _ _ command hz hkind
    have hcode : z₁.code = z.code := congrArg Prod.snd hkey
    have hname₁ : z₁.name = z.name := by
      rcases hcases with hsame | hgiven | ⟨-, hin⟩
      · exact hsame
      · exact hgives command List.mem_cons_self _ hgiven
      · exact absurd hin (hcity 0)
    obtain ⟨z', hz', ⟨hid', hkey'⟩, hname', hshown⟩ := ih hz₁ ((congrArg Prod.fst hkey).trans hkind)
      (by rwa [hname₁, hcode])
      (fun c hc name => by
        rw [hcode, hname₁]
        exact hgives c (List.mem_cons_of_mem _ hc) name)
      fun k => by
        rw [hid, hname₁]
        exact hcity (k + 1)
    exact ⟨z', hz', ⟨hid'.trans hid, hkey'.trans hkey⟩, hname'.trans hname₁, hshown.trans hname₁⟩

/-- The gazetteer has no name for the area, and the city that it is in has another one. -/
theorem name_kept_magnoliaPark : ∃ z db, z ∈ db.regions ∧ z.name = "Magnolia Park".toList ∧
    ∃ z' ∈ (runAll .plain [.loadRegions [.ok .gazetteer] "gazetteer".toList,
        .loadPlaces .burbank "CA".toList (1 / 100)] db).regions,
      (z'.id = z.id ∧ z'.key = z.key) ∧ z'.name = z.name ∧
        (runAll .plain [.loadRegions [.ok .gazetteer] "gazetteer".toList,
          .loadPlaces .burbank "CA".toList (1 / 100)] db).shownName z' = z.name := by
  obtain ⟨z, hz⟩ : ∃ z, (runAll .plain [.loadRegions [.ok .magnoliaPark] "hand".toList]
      .empty).regions = [z] := List.length_eq_one_iff.mp (by decide +kernel)
  have hcolumns : (runAll .plain [.loadRegions [.ok .magnoliaPark] "hand".toList]
      .empty).regions.map (fun r => (r.id, r.key, r.name)) =
        [(0, (.zcta, "91506".toList), "Magnolia Park".toList)] := by decide +kernel
  rw [hz] at hcolumns
  obtain ⟨hid, hrest⟩ := Prod.mk.inj (List.singleton_inj.mp hcolumns)
  obtain ⟨hkey, hname⟩ := Prod.mk.inj hrest
  have hcode : z.code = "91506".toList := congrArg Prod.snd hkey
  have hmem : z ∈ (runAll .plain [.loadRegions [.ok .magnoliaPark] "hand".toList] .empty).regions :=
    hz ▸ List.mem_singleton_self z
  refine ⟨z, _, hmem, hname, name_kept _ hmem (congrArg Prod.fst hkey) ?_ ?_ ?_⟩
  · rw [hname, hcode]
    decide
  · -- neither command gives names
    rintro command hcommand name hgives
    rcases List.mem_cons.mp hcommand with rfl | hrest
    · obtain ⟨row, hrow, hrcode, rfl, hne⟩ := hgives
      cases List.mem_singleton.mp hrow
      exact absurd rfl (hcode ▸ hne)
    · cases List.mem_singleton.mp hrest
      exact hgives.elim
  · rw [hid, hname]
    rintro (_ | k)
    · decide +kernel
    · rw [List.take_of_length_le (Nat.le_add_left 2 k)]
      decide +kernel

end Marketplace.Reference
