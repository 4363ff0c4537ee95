import Mathlib.Data.Char
import Mathlib.Data.List.Lex
import Marketplace.Keyset.Loop
import Marketplace.ReadCommitted.Alone
import Marketplace.Registry.Service
import Marketplace.Registry.ServiceAreas

/-!
# Lists of areas, written and read back

A listing declares a list of areas (`Marketplace.Registry.Area`), which is written as a whole
(`Marketplace.Registry.replace`) and read back with its radius first, which every listing has
(`Marketplace.Registry.forContractor`).

What is written is right. But a code that is given twice is answered like one that there is no region
of, since neither inserts a row; and what is read back of a listing with as many regions as a list
may have areas is longer by one than what may be written
(`Marketplace.Registry.replace_exact_iff`).
-/

namespace Marketplace.Registry

open ReadCommitted

variable (atlas : Atlas)

/-! ### Lists of areas -/

/-- `Area`: a region by its ZIP code, or a radius. -/
inductive Area
  | region (code : Text)
  | radius (radiusM : ℤ)
  deriving DecidableEq

namespace Area

/-- The code of a region. -/
def code : Area → Option Text
  | region code => some code
  | radius _ => none

/-- The radius of an area that is one. -/
def radiusM : Area → Option ℤ
  | region _ => none
  | radius radiusM => some radiusM

end Area

/-- The codes of a list of areas. -/
def codesOf (areas : List Area) : List Text := areas.filterMap Area.code

/-- The radius of a list of areas: the first one. -/
def givenRadius (areas : List Area) : Option ℤ := areas.findSome? Area.radiusM

@[simp] theorem codesOf_region (code : Text) (areas : List Area) :
    codesOf (.region code :: areas) = code :: codesOf areas := rfl

@[simp] theorem codesOf_radius (n : ℤ) (areas : List Area) :
    codesOf (.radius n :: areas) = codesOf areas := rfl

@[simp] theorem givenRadius_region (code : Text) (areas : List Area) :
    givenRadius (.region code :: areas) = givenRadius areas := rfl

@[simp] theorem givenRadius_radius (n : ℤ) (areas : List Area) :
    givenRadius (.radius n :: areas) = some n := rfl

/-- What `service_areas_put` makes of its inputs, after so many radii. -/
def readEach (radii : ℕ) : List ServiceAreaInput → Except AppError (List Area)
  | [] => .ok []
  | .region code :: inputs =>
    let code := trim code
    if Search.isZip code then (readEach radii inputs).map (.region code :: ·)
    else .error (.invalid ("\"" ++ String.ofList code ++ "\" is not a five-digit ZIP code."))
  | .radius radiusM :: inputs =>
    if 1 < radii + 1 then .error (.invalid "A listing may set one travel radius, not several.")
    else if 1 ≤ radiusM ∧ radiusM ≤ maxRadiusM then
      (readEach (radii + 1) inputs).map (.radius radiusM :: ·)
    else .error (.invalid
      ("A travel radius must be between 1 and " ++ toString maxRadiusM ++ " metres."))

/-- What `service_areas_put` makes of its inputs. -/
def readAreas (inputs : List ServiceAreaInput) : Except AppError (List Area) :=
  if inputs.length > maxAreas then
    .error (.invalid ("A listing may declare at most " ++ toString maxAreas ++ " service areas."))
  else readEach 0 inputs

/-- The radius that is written: the given one, or the default, as far as it may be stored. -/
def radiusOf (areas : List Area) : ℕ :=
  (max 1 (min ((givenRadius areas).getD Directory.defaultServiceRadiusM) maxRadiusM)).toNat

/-- **`service_areas::replace`**: the regions are deleted, the radius is set, and the first areas
are added; the answer is the codes that were not taken. -/
def replace (id : Uuid) (areas : List Area) : Registering (List Text) := do
  let _ ← Action.transaction .commit .rollback do
    let old ← Action.look (areasOf id)
    Action.ofProg (Prog.countEach old fun key => .query (.area .tx (.drop key)) .ret)
  updateListing .auto id (.serviceRadius (radiusOf areas))
  addAreas atlas id (codesOf (areas.take maxAreas))

/-- **The codes of regions**: a region that a code finds has that code. -/
structure Codes where
  code : Uuid → Text
  code_findZcta : ∀ c region, atlas.findZcta c = some region → code region.id = c

variable {atlas} in
/-- **`service_areas::for_contractor`**, as process `j` sees it. -/
def forContractor (codes : Codes atlas) (id : Uuid) (j : ℕ) (db : Db) : List Area :=
  ((db.contractors.row j id).map fun c => Area.radius c.serviceRadiusM).toList ++
    (Keyset.inOrder ((areasOf id j db).map fun key => codes.code key.regionId)).map Area.region

/-! ### What is declared by a list -/

/-- What a list of areas declares. -/
def DeclaredAreas.ofList (areas : List Area) : DeclaredAreas where
  codes := codesOf areas
  radiusM := (givenRadius areas).map Int.toNat

variable {atlas} {id : Uuid} {inputs : List ServiceAreaInput} {areas : List Area}

/-- What has been declared is in front of what the rest of the inputs declares. -/
theorem declareEach_eq {declared : DeclaredAreas} {radii : ℕ}
    (hradii : 0 < radii ↔ declared.radiusM.isSome = true) :
    declareEach declared inputs = (readEach radii inputs).map fun areas =>
      ⟨declared.codes ++ codesOf areas,
        declared.radiusM.or (DeclaredAreas.ofList areas).radiusM⟩ := by
  induction inputs generalizing declared radii with
  | nil => simp [declareEach, readEach, Except.map, codesOf, givenRadius, DeclaredAreas.ofList]
  | cons input inputs ih =>
    cases input with
    | region code =>
      simp only [declareEach, readEach]
      by_cases hzip : Search.isZip (trim code) = true
      · rw [if_pos hzip, if_pos hzip, @ih ⟨declared.codes ++ [trim code], declared.radiusM⟩ radii hradii]
        cases readEach radii inputs <;> simp [Except.map, DeclaredAreas.ofList]
      · rw [if_neg hzip, if_neg hzip]
        rfl
    | radius radiusM =>
      simp only [declareEach, readEach]
      by_cases hsome : declared.radiusM.isSome = true
      · have hmany : 1 < radii + 1 := Nat.succ_lt_succ (hradii.mpr hsome)
        rw [if_pos hsome, if_pos hmany]
        rfl
      · have hfew : ¬ 1 < radii + 1 := fun h => hsome (hradii.mp (by omega))
        rw [if_neg hsome, if_neg hfew]
        by_cases hwithin : 1 ≤ radiusM ∧ radiusM ≤ maxRadiusM
        · rw [if_pos hwithin, if_pos hwithin, @ih ⟨declared.codes, some radiusM.toNat⟩ (radii + 1)
            (iff_of_true (Nat.succ_pos radii) rfl)]
          have hnone : declared.radiusM = none := by simpa using hsome
          cases readEach (radii + 1) inputs <;> simp [Except.map, DeclaredAreas.ofList, hnone]
        · rw [if_neg hwithin, if_neg hwithin]
          rfl

/-- **A list of areas declares what its inputs do.** -/
theorem declareAreas_eq (inputs : List ServiceAreaInput) :
    declareAreas inputs = (readAreas inputs).map DeclaredAreas.ofList := by
  rw [declareAreas, readAreas]
  split
  · rfl
  · have hnone : 0 < 0 ↔ ({} : DeclaredAreas).radiusM.isSome = true := by simp
    rw [declareEach_eq hnone]
    rfl

theorem Except.map_ok {ε α β : Type} {x : Except ε α} {f : α → β} {b : β}
    (h : x.map f = .ok b) : ∃ a, x = .ok a ∧ f a = b := by
  cases x with
  | error e => cases h
  | ok a => exact ⟨a, rfl, Except.ok.inj h⟩

/-- **What the handler lets through**: as many areas as inputs, of which a radius may be stored. -/
theorem of_readEach {radii : ℕ} (h : readEach radii inputs = .ok areas) :
    areas.length = inputs.length ∧
      ∀ n, givenRadius areas = some n → 1 ≤ n ∧ n ≤ maxRadiusM := by
  induction inputs generalizing radii areas with
  | nil =>
    cases h
    exact ⟨rfl, by simp [givenRadius]⟩
  | cons input inputs ih =>
    cases input with
    | region code =>
      simp only [readEach] at h
      split at h
      · obtain ⟨areas, hrest, rfl⟩ := Except.map_ok h
        obtain ⟨hlength, hradius⟩ := ih hrest
        exact ⟨by simp [hlength], hradius⟩
      · cases h
    | radius radiusM =>
      simp only [readEach] at h
      split at h
      · cases h
      split at h
      · rename_i hwithin
        obtain ⟨areas, hrest, rfl⟩ := Except.map_ok h
        refine ⟨by simp [(ih hrest).1], fun n hn => ?_⟩
        obtain rfl : radiusM = n := Option.some.inj hn
        exact hwithin
      · cases h

theorem length_le_of_readAreas (h : readAreas inputs = .ok areas) : areas.length ≤ maxAreas := by
  rw [readAreas] at h
  split at h
  · cases h
  · rw [(of_readEach h).1]
    omega

/-- What the handler lets through may be stored. -/
theorem stored_of_readAreas (h : readAreas inputs = .ok areas) :
    1 ≤ radiusOf areas ∧ radiusOf areas ≤ maxRadiusM ∧
      (radiusOf areas : ℤ) = (givenRadius areas).getD Directory.defaultServiceRadiusM := by
  rw [readAreas] at h
  split at h
  · cases h
  · have hwithin := (of_readEach h).2
    have hdefault : 1 ≤ Directory.defaultServiceRadiusM ∧
        Directory.defaultServiceRadiusM ≤ maxRadiusM := by decide
    rw [radiusOf]
    cases hradius : givenRadius areas with
    | none =>
      simp only [Option.getD_none]
      omega
    | some n =>
      have := hwithin n hradius
      simp only [Option.getD_some]
      omega

/-- The radius is what the list declares, or the default. -/
theorem radiusOf_of_readAreas (h : readAreas inputs = .ok areas) :
    radiusOf areas = (DeclaredAreas.ofList areas).radiusM.getD Directory.defaultServiceRadiusM := by
  obtain ⟨-, -, hradius⟩ := stored_of_readAreas h
  rw [DeclaredAreas.ofList]
  cases hgiven : givenRadius areas with
  | none =>
    rw [hgiven, Option.getD_none] at hradius
    exact Int.ofNat.inj hradius
  | some n =>
    rw [hgiven, Option.getD_some] at hradius
    rw [Option.map_some, Option.getD_some, ← hradius, Int.toNat_natCast]

/-- **What the handler lets through is replaced as the request has it.** -/
theorem replace_eq_replaceAreas (h : readAreas inputs = .ok areas) :
    replace atlas id areas = replaceAreas atlas id (.ofList areas) := by
  have htake : areas.take maxAreas = areas := List.take_of_length_le (length_le_of_readAreas h)
  have hcodes : (codesOf areas).take maxAreas = codesOf areas :=
    List.take_of_length_le ((List.length_filterMap_le _ _).trans (length_le_of_readAreas h))
  rw [replace, replaceAreas, htake, radiusOf_of_readAreas h]
  simp only [DeclaredAreas.ofList] at hcodes ⊢
  rw [hcodes]

/-- **A request that the handler lets through** replaces by the list that it has read. -/
theorem putServiceAreas_of_readAreas {caller : Uuid} (h : readAreas inputs = .ok areas) :
    putServiceAreas atlas caller id inputs = requireClaimant caller id (replace atlas id areas) := by
  have hdeclared : declareAreas inputs = .ok (.ofList areas) := by
    rw [declareAreas_eq, h]
    rfl
  rw [putServiceAreas, hdeclared, replace_eq_replaceAreas h]

/-! ### A replacement that runs alone -/

section Alone

variable {i : ℕ} {db : Db} {codes : List Text} {code : Text} {v : Coverage}

/-- **The `DELETE`**, with its commit. -/
theorem alone_delete (h : Still id db.contractors db.areas) :
    (Action.transaction (ε := AppError) .commit .rollback (do
      let old ← Action.look (areasOf id)
      Action.ofProg (Prog.countEach old fun key => .query (.area .tx (.drop key)) .ret))).run.Alone
        (registry atlas) i
        (fun r db => (∃ n, r = .ok n) ∧ Cleared id db.contractors db.areas) db := by
  have hown : db.areas.Own i := Table.own_of_unlocked h.areas_free
  have hclearing : Clearing id i (areasOf id i db) db.contractors db.areas := by
    refine ⟨h.free, h.there, fun r hr => ?_⟩
    obtain ⟨u, hu⟩ := Option.ne_none_iff_exists'.mp hr
    exact Table.mem_scan.mpr ⟨u, hu, decide_eq_true rfl⟩
  refine Action.alone_transaction (Action.alone_look (Action.alone_last ?_))
  refine (Prog.Alone.countEach (fun left (db : Db) =>
    Clearing id i left db.contractors db.areas ∧ db.areas.Own i) ?_ ⟨hclearing, hown⟩).mono ?_
  · rintro key left db ⟨hclearing, hown⟩
    obtain ⟨b, t, ht, hown', hrows⟩ := hown.remove (k := key)
    refine ⟨b, { db with areas := t }, ?_, ⟨hclearing.free, hclearing.there, fun r hr => ?_⟩, hown'⟩
    · show (db.areas.remove .tx i key fun _ => true).map _ = _
      rw [ht]
      rfl
    · have hr : t.row i ⟨id, r⟩ ≠ none := hr
      rw [hrows] at hr
      split at hr
      · exact absurd rfl hr
      · rename_i hne
        exact (List.mem_cons.mp (hclearing.left r hr)).resolve_left hne
  · rintro n db ⟨hclearing, hown⟩
    have hslot : ∀ k, (db.contractors.commit i).slot k = db.contractors.slot k := fun k =>
      Slot.commit_of_unlocked (hclearing.free k)
    have hareas : ∀ k, (db.areas.commit i).slot k = ⟨db.areas.row i k, none⟩ := fun k =>
      hown.slot_commit
    refine ⟨n, rfl, (), _, rfl, ⟨n, rfl⟩, ⟨fun k => ?_, fun k => ?_, ?_⟩, ?_⟩
    · exact (congrArg Slot.lock (hslot k)).trans (hclearing.free k)
    · exact congrArg Slot.lock (hareas k)
    · obtain ⟨c, hc⟩ := hclearing.there
      exact ⟨c, (congrArg Slot.committed (hslot id)).trans hc⟩
    · refine Set.eq_empty_of_forall_notMem fun r hr => ?_
      have hr : ((db.areas.commit i).slot ⟨id, r⟩).committed ≠ none := hr
      rw [hareas] at hr
      exact List.not_mem_nil (hclearing.left r hr)

/-- **The radius is set.** -/
theorem alone_radius {radiusM : ℕ} (hchecks : (Change.serviceRadius radiusM).checks = true)
    (h : Cleared id db.contractors db.areas) :
    (updateListing .auto id (.serviceRadius radiusM)).run.Alone (registry atlas) i
      (fun r db => r = .ok () ∧ Covers id ⟨some radiusM, ∅⟩ db.contractors db.areas) db := by
  obtain ⟨hstill, hregions⟩ := h
  obtain ⟨c, hc⟩ := hstill.there
  have hrow : db.contractors.row i id = some c :=
    (Slot.visible_of_unlocked (hstill.free id)).trans hc
  have hmodify := Table.modify_auto (hstill.free id) (i := i) (b := some true)
    (f := Table.checking (fun _ => true) fun c =>
      if (Change.serviceRadius radiusM).checks then some ((Change.serviceRadius radiusM).apply c)
      else none)
    (r := (Change.serviceRadius radiusM).apply c) (by simp [hrow, Table.checking, hchecks])
  refine ⟨some true, { db with contractors := (db.contractors.put id
    ⟨some ((Change.serviceRadius radiusM).apply c), none⟩) }, ?_, rfl, ⟨fun k => ?_,
      hstill.areas_free, ?_⟩, Coverage.ext ?_ hregions⟩
  · show (db.contractors.modify .auto i id _).map _ = _
    rw [hmodify]
    rfl
  · show ((db.contractors.put id _).slot k).lock = none
    rw [Table.slot_put]
    split
    · rfl
    · exact hstill.free k
  · exact ⟨_, congrArg Slot.committed Table.slot_put_self⟩
  · show ((db.contractors.put id _).slot id).committed.map Contractor.serviceRadiusM = some radiusM
    rw [Table.slot_put_self]
    rfl

variable (atlas) in
/-- The regions of some codes, one for each code that has one. -/
def regionIds (codes : List Text) : List Uuid :=
  codes.filterMap fun code => (atlas.findZcta code).map Directory.Region.id

/-- The regions of some codes, as a set. -/
theorem regionsOf_eq : regionsOf atlas codes = {r | r ∈ regionIds atlas codes} := by
  ext r
  simp [regionsOf, regionIds]

/-- **A region is served**, and is new unless it was served before. -/
theorem alone_addArea {region : Directory.Region} (hregion : atlas.findZcta code = some region)
    (h : Covers id v db.contractors db.areas) :
    (addArea atlas id code).run.Alone (registry atlas) i
      (fun r db => (∃ new, r = .ok new ∧ (new = true ↔ region.id ∉ v.regions)) ∧
        Covers id ⟨v.radiusM, insert region.id v.regions⟩ db.contractors db.areas) db := by
  obtain ⟨hstill, rfl⟩ := h
  have hfree := hstill.areas_free ⟨id, region.id⟩
  have hserved : region.id ∈ (coverageIn id db.contractors db.areas).regions ↔
      db.areas.row i ⟨id, region.id⟩ ≠ none := by
    rw [Table.row, Slot.visible_of_unlocked hfree]
    rfl
  rw [addArea, hregion]
  cases hrow : db.areas.row i ⟨id, region.id⟩ with
  | some u =>
    have hin : region.id ∈ (coverageIn id db.contractors db.areas).regions :=
      hserved.mpr (by simp [hrow])
    refine ⟨false, db, ?_, ⟨false, rfl, by simp [hin]⟩, hstill, ?_⟩
    · show (db.areas.modify .auto i ⟨id, region.id⟩ (Table.inserting ())).map _ = _
      rw [Table.modify_auto_keep hfree (b := false) (by rw [hrow]; rfl)]
      rfl
    · rw [Set.insert_eq_of_mem hin]
  | none =>
    have hout : region.id ∉ (coverageIn id db.contractors db.areas).regions := fun hin =>
      hserved.mp hin hrow
    refine ⟨true, { db with areas := (db.areas.put ⟨id, region.id⟩ ⟨some (), none⟩) }, ?_,
      ⟨true, rfl, by simp [hout]⟩, ⟨hstill.free, fun k => ?_, hstill.there⟩,
      Coverage.ext rfl (Set.ext fun r => ?_)⟩
    · show (db.areas.modify .auto i ⟨id, region.id⟩ (Table.inserting ())).map _ = _
      rw [Table.modify_auto hfree (b := true) (r := ()) (by rw [hrow]; rfl)]
      rfl
    · show ((db.areas.put _ _).slot k).lock = none
      rw [Table.slot_put]
      split
      · rfl
      · exact hstill.areas_free k
    · show ((db.areas.put _ _).slot ⟨id, r⟩).committed ≠ none ↔ r = region.id ∨ _
      rw [Table.slot_put]
      by_cases hr : r = region.id
      · simp [hr]
      · rw [if_neg fun he => hr (AreaKey.mk.inj he).2, or_iff_right hr]
        rfl

/-- **The regions are added**, and exactly the codes without one are answered when no region is
there already: the answer is too long otherwise. -/
theorem alone_addAreas (h : Covers id v db.contractors db.areas) :
    (addAreas atlas id codes).run.Alone (registry atlas) i
      (fun r db => Covers id ⟨v.radiusM, v.regions ∪ regionsOf atlas codes⟩ db.contractors db.areas ∧
        ∃ unknown, r = .ok unknown ∧
          (codes.filter fun code => (atlas.findZcta code).isNone).length ≤ unknown.length ∧
          (unknown = codes.filter (fun code => (atlas.findZcta code).isNone) ↔
            (regionIds atlas codes).Nodup ∧ ∀ r ∈ regionIds atlas codes, r ∉ v.regions)) db := by
  induction codes generalizing v db with
  | nil =>
    have hnone : regionsOf atlas [] = ∅ := by simp [regionsOf]
    refine ⟨?_, [], rfl, le_rfl, by simp [regionIds]⟩
    rwa [hnone, Set.union_empty]
  | cons code codes ih =>
    rw [addAreas, regionsOf_cons, ← Set.union_assoc]
    cases hregion : atlas.findZcta code with
    | none =>
      rw [regionsOf_of_none hregion, Set.union_empty]
      rw [addArea, hregion]
      refine Action.alone_andThen ⟨false, rfl, Action.alone_andThen ((ih h).mono ?_)⟩
      rintro _ db ⟨hcovers, unknown, rfl, hlength, hiff⟩
      refine ⟨unknown, rfl, hcovers, code :: unknown, rfl, ?_, ?_⟩
      · simpa [hregion] using hlength
      · simpa [hregion, regionIds] using hiff
    | some region =>
      rw [regionsOf_of_some hregion, Set.union_singleton]
      refine Action.alone_andThen ((alone_addArea hregion h).mono ?_)
      rintro _ db' ⟨⟨new, rfl, hnew⟩, hcovers⟩
      refine ⟨new, rfl, Action.alone_andThen ((ih hcovers).mono ?_)⟩
      rintro _ db ⟨hcovers, unknown, rfl, hlength, hiff⟩
      refine ⟨unknown, rfl, hcovers, _, rfl, ?_, ?_⟩
      · have hfilter : ((code :: codes).filter fun code => (atlas.findZcta code).isNone) =
            codes.filter fun code => (atlas.findZcta code).isNone := by simp [hregion]
        rw [hfilter]
        split
        · exact hlength
        · exact Nat.le_succ_of_le hlength
      · have hfilter : ((code :: codes).filter fun code => (atlas.findZcta code).isNone) =
            codes.filter fun code => (atlas.findZcta code).isNone := by simp [hregion]
        have hids : regionIds atlas (code :: codes) = region.id :: regionIds atlas codes := by
          simp [regionIds, hregion]
        rw [hfilter, hids, List.nodup_cons, List.forall_mem_cons]
        by_cases hin : region.id ∈ v.regions
        · -- an answer that names the code is longer than the codes without a region
          have hold : ¬ new = true := fun h => hnew.mp h hin
          rw [if_neg hold]
          refine iff_of_false (fun he => ?_) fun h => h.2.1 hin
          have := congrArg List.length he
          simp only [List.length_cons] at this
          omega
        · rw [if_pos (hnew.mpr hin), hiff]
          constructor
          · rintro ⟨hnodup, hfresh⟩
            refine ⟨⟨fun hmem => hfresh _ hmem (Set.mem_insert _ _), hnodup⟩, hin, fun r hr hold => ?_⟩
            exact hfresh r hr (Set.mem_insert_of_mem _ hold)
          · rintro ⟨⟨hnotin, hnodup⟩, -, hfresh⟩
            refine ⟨hnodup, fun r hr hold => ?_⟩
            rcases hold with rfl | hold
            · exact hnotin hr
            · exact hfresh r hr hold

/-- The radius that is written may be stored. -/
theorem checks_radiusOf (areas : List Area) :
    (Change.serviceRadius (radiusOf areas)).checks = true := by
  have hwithin : 0 < radiusOf areas ∧ radiusOf areas ≤ 200000 := by
    rw [radiusOf, maxRadiusM]
    omega
  exact decide_eq_true hwithin

/-- **A replacement, alone.** -/
theorem alone_replace (areas : List Area) (h : Still id db.contractors db.areas) :
    (replace atlas id areas).run.Alone (registry atlas) i
      (fun r db => Covers id ⟨some (radiusOf areas), regionsOf atlas (codesOf (areas.take maxAreas))⟩
          db.contractors db.areas ∧
        ∃ unknown, r = .ok unknown ∧
          (unknown = (codesOf (areas.take maxAreas)).filter (fun code => (atlas.findZcta code).isNone) ↔
            (regionIds atlas (codesOf (areas.take maxAreas))).Nodup)) db := by
  refine Action.alone_andThen ((alone_delete h).mono ?_)
  rintro _ db ⟨⟨n, rfl⟩, hcleared⟩
  refine ⟨n, rfl, Action.alone_andThen ((alone_radius (checks_radiusOf areas) hcleared).mono ?_)⟩
  rintro _ db ⟨rfl, hcovers⟩
  refine ⟨(), rfl, (alone_addAreas hcovers).mono ?_⟩
  rintro _ db ⟨hcovers, unknown, rfl, -, hiff⟩
  rw [Set.empty_union] at hcovers
  exact ⟨hcovers, unknown, rfl, hiff.trans (and_iff_left fun _ _ => Set.notMem_empty _)⟩

end Alone

/-! ### What is read back -/

variable (atlas) in
/-- The codes that have a region. -/
def knownCodes (codes : List Text) : List Text := codes.filter fun code => (atlas.findZcta code).isSome

variable (atlas) in
/-- The codes that have none. -/
def unknownCodes (codes : List Text) : List Text :=
  codes.filter fun code => (atlas.findZcta code).isNone

theorem mem_regionIds {codes : List Text} {r : Uuid} :
    r ∈ regionIds atlas codes ↔
      ∃ code ∈ codes, ∃ region, atlas.findZcta code = some region ∧ region.id = r := by
  simp [regionIds]

section ReadBack

variable {i : ℕ} {db : Db} {cs : List Text} (codes : Codes atlas)

theorem map_code_regionIds : (regionIds atlas cs).map codes.code = knownCodes atlas cs := by
  induction cs with
  | nil => rfl
  | cons c cs ih =>
    rw [regionIds, knownCodes] at *
    cases hregion : atlas.findZcta c with
    | none => simpa [hregion] using ih
    | some region => simpa [hregion, codes.code_findZcta c region hregion] using ih

/-- Regions that have the same code are found by it. -/
theorem code_inj_on_regionIds : ∀ r ∈ regionIds atlas cs, ∀ r' ∈ regionIds atlas cs,
    codes.code r = codes.code r' → r = r' := by
  intro r hr r' hr' heq
  obtain ⟨c, -, region, hregion, rfl⟩ := mem_regionIds.mp hr
  obtain ⟨c', -, region', hregion', rfl⟩ := mem_regionIds.mp hr'
  rw [codes.code_findZcta c region hregion, codes.code_findZcta c' region' hregion'] at heq
  rw [heq, hregion'] at hregion
  rw [Option.some.inj hregion]

/-- **No region is named twice** if no code that has one is. -/
theorem nodup_regionIds (codes : Codes atlas) :
    (regionIds atlas cs).Nodup ↔ (knownCodes atlas cs).Nodup := by
  rw [← map_code_regionIds codes]
  exact ⟨fun h => h.map_on (code_inj_on_regionIds codes), List.Nodup.of_map _⟩

/-- **What is read back** of a listing that serves the regions of some codes, each once. -/
theorem forContractor_of_covers {radiusM : ℕ} (hnodup : (regionIds atlas cs).Nodup)
    (h : Covers id ⟨some radiusM, regionsOf atlas cs⟩ db.contractors db.areas) :
    forContractor codes id i db =
      .radius radiusM :: (Keyset.inOrder (knownCodes atlas cs)).map .region := by
  obtain ⟨hstill, hcoverage⟩ := h
  have hradius : (db.contractors.slot id).committed.map Contractor.serviceRadiusM = some radiusM :=
    congrArg Coverage.radiusM hcoverage
  have hregions : ∀ r, (db.areas.slot ⟨id, r⟩).committed ≠ none ↔ r ∈ regionIds atlas cs := by
    intro r
    have hset : {r | (db.areas.slot ⟨id, r⟩).committed ≠ none} = {r | r ∈ regionIds atlas cs} :=
      (congrArg Coverage.regions hcoverage).trans regionsOf_eq
    exact Set.ext_iff.mp hset r
  have hkeys : (areasOf id i db).Perm ((regionIds atlas cs).map (AreaKey.mk id)) := by
    have hscan : (areasOf id i db).Nodup := db.areas.nodup.filter _
    refine (List.perm_ext_iff_of_nodup hscan (hnodup.map fun r r' he => (AreaKey.mk.inj he).2)).mpr ?_
    rintro ⟨k, r⟩
    rw [areasOf, Table.mem_scan, List.mem_map]
    constructor
    · rintro ⟨u, hu, hk⟩
      obtain rfl : k = id := of_decide_eq_true hk
      have hu : (db.areas.slot ⟨k, r⟩).visible i = some u := hu
      rw [Slot.visible_of_unlocked (hstill.areas_free _)] at hu
      exact ⟨r, (hregions r).mp (hu ▸ Option.some_ne_none u), rfl⟩
    · rintro ⟨r', hr', he⟩
      obtain ⟨rfl, rfl⟩ := AreaKey.mk.inj he
      obtain ⟨u, hu⟩ := Option.ne_none_iff_exists'.mp ((hregions r').mpr hr')
      refine ⟨u, ?_, decide_eq_true rfl⟩
      show (db.areas.slot ⟨id, r'⟩).visible i = some u
      rw [Slot.visible_of_unlocked (hstill.areas_free _), hu]
  have hcodes : ((areasOf id i db).map fun key => codes.code key.regionId).Perm
      (knownCodes atlas cs) := by
    refine (hkeys.map _).trans ?_
    rw [List.map_map, ← map_code_regionIds codes]
    rfl
  have hrow : db.contractors.row i id = (db.contractors.slot id).committed :=
    Slot.visible_of_unlocked (hstill.free id)
  rw [forContractor, Keyset.inOrder_congr hcodes, hrow]
  obtain ⟨c, hc⟩ := hstill.there
  rw [hc] at hradius ⊢
  rw [Option.map_some, Option.some.injEq] at hradius
  rw [← hradius]
  rfl

/-- The regions of some codes are those of the codes that have one. -/
theorem mem_regionsOf_known (codes : Codes atlas) {c : Text} {region : Directory.Region}
    (hregion : atlas.findZcta c = some region) : region.id ∈ regionsOf atlas cs ↔ c ∈ cs := by
  constructor
  · rintro ⟨c', hc', region', hregion', hid⟩
    have hcode := codes.code_findZcta c region hregion
    rw [← hid, codes.code_findZcta c' region' hregion'] at hcode
    exact hcode ▸ hc'
  · exact fun hc => ⟨c, hc, region, hregion, rfl⟩

/-- **The first codes name all regions** only if they are all the codes. -/
theorem regionsOf_take_eq_iff (codes : Codes atlas) {n : ℕ} (hknown : ∀ c ∈ cs, (atlas.findZcta c).isSome)
    (hnodup : cs.Nodup) : regionsOf atlas (cs.take n) = regionsOf atlas cs ↔ cs.length ≤ n := by
  constructor
  · intro h
    by_contra hlong
    rw [not_le] at hlong
    -- the first code that is dropped names a region that no other code names
    have hmem : cs[n] ∈ cs := List.getElem_mem hlong
    obtain ⟨region, hregion⟩ := Option.isSome_iff_exists.mp (hknown _ hmem)
    have hin : region.id ∈ regionsOf atlas (cs.take n) := by
      rw [h]
      exact (mem_regionsOf_known codes hregion).mpr hmem
    have htake : cs[n] ∈ cs.take n := (mem_regionsOf_known codes hregion).mp hin
    obtain ⟨k, hk, hget⟩ := List.mem_iff_getElem.mp htake
    rw [List.getElem_take] at hget
    have hk' : k < n := lt_of_lt_of_le hk (by simp)
    exact hk'.ne ((hnodup.getElem_inj_iff).mp hget)
  · intro h
    rw [List.take_of_length_le h]

theorem regionsOf_congr {cs' : List Text} (h : ∀ c, c ∈ cs ↔ c ∈ cs') :
    regionsOf atlas cs = regionsOf atlas cs' := by
  ext r
  simp [regionsOf, h]

/-- The codes without a region name none. -/
theorem regionsOf_knownCodes : regionsOf atlas (knownCodes atlas cs) = regionsOf atlas cs := by
  ext r
  constructor
  · rintro ⟨c, hc, region, hregion, hid⟩
    exact ⟨c, (List.mem_filter.mp hc).1, region, hregion, hid⟩
  · rintro ⟨c, hc, region, hregion, hid⟩
    exact ⟨c, List.mem_filter.mpr ⟨hc, by simp [hregion]⟩, region, hregion, hid⟩

@[simp] theorem codesOf_map_region : codesOf (cs.map .region) = cs := by
  induction cs with
  | nil => rfl
  | cons c cs ih => rw [List.map_cons, codesOf_region, ih]

/-- **What is read back covers the same** only if its radius leaves room for all its regions. -/
theorem alone_replace_forContractor {radiusM : ℕ} (hradius : 1 ≤ radiusM ∧ radiusM ≤ maxRadiusM)
    (hnodup : (knownCodes atlas cs).Nodup)
    (h : Covers id ⟨some radiusM, regionsOf atlas cs⟩ db.contractors db.areas) :
    (replace atlas id (forContractor codes id i db)).run.Alone (registry atlas) i
        (fun _ db' => db'.coverage id = db.coverage id) db ↔
      (knownCodes atlas cs).length < maxAreas := by
  have hread := forContractor_of_covers codes (i := i) ((nodup_regionIds codes).mpr hnodup) h
  have hordered : (Keyset.inOrder (knownCodes atlas cs)).Nodup :=
    (Keyset.perm_inOrder _).nodup_iff.mpr hnodup
  have hknown : ∀ c ∈ Keyset.inOrder (knownCodes atlas cs), (atlas.findZcta c).isSome := fun c hc =>
    (List.mem_filter.mp (Keyset.mem_inOrder.mp hc)).2
  have hsame : radiusOf (forContractor codes id i db) = radiusM := by
    rw [hread, radiusOf]
    simp only [givenRadius_radius, Option.getD_some]
    omega
  have htaken : codesOf ((forContractor codes id i db).take maxAreas) =
      (Keyset.inOrder (knownCodes atlas cs)).take 39 := by
    rw [hread]
    show codesOf (.radius radiusM :: List.take 39 _) = _
    rw [codesOf_radius, ← List.map_take, codesOf_map_region]
  have hregions : regionsOf atlas (Keyset.inOrder (knownCodes atlas cs)) = regionsOf atlas cs := by
    rw [← @regionsOf_knownCodes atlas cs]
    exact regionsOf_congr fun c => Keyset.mem_inOrder
  have hreplace := @alone_replace atlas id i db (forContractor codes id i db) h.1
  rw [hsame, htaken] at hreplace
  have hcoverage : db.coverage id = ⟨some radiusM, regionsOf atlas cs⟩ := h.2
  have hroom := @regionsOf_take_eq_iff atlas _ codes 39 hknown hordered
  rw [(Keyset.perm_inOrder _).length_eq, hregions] at hroom
  rw [hcoverage, maxAreas, Nat.lt_succ_iff, ← hroom]
  constructor
  · intro hunchanged
    obtain ⟨_, db', ⟨⟨-, hcovers⟩, -⟩, hsame⟩ := (hreplace.and hunchanged).exists
    exact congrArg Coverage.regions (hcovers.symm.trans hsame)
  · intro htake
    refine hreplace.mono ?_
    rintro _ db' ⟨⟨-, hcovers⟩, -⟩
    exact hcovers.trans (congrArg (Coverage.mk (some radiusM)) htake)

/-! ### Exact replacement -/

/-- **The list has been written exactly**: the regions are those of its codes, the radius is its
radius or the default, the codes that have no region are answered, and replacing with what is read
back changes nothing. -/
structure ReplacedExactly (id : Uuid) (i : ℕ) (areas : List Area) (unknown : List Text) (db : Db) :
    Prop where
  regions : (db.coverage id).regions = regionsOf atlas (codesOf areas)
  radius : (db.coverage id).radiusM.map (fun n : ℕ => (n : ℤ)) =
    some ((givenRadius areas).getD Directory.defaultServiceRadiusM)
  unknown : unknown = unknownCodes atlas (codesOf areas)
  readBack : (replace atlas id (forContractor codes id i db)).run.Alone (registry atlas) i
    (fun _ db' => db'.coverage id = db.coverage id) db

/-- **Replacement is exact** if and only if no code that has a region is given twice, and there are
fewer such codes than areas that a list may have. -/
theorem replace_exact_iff {inputs : List ServiceAreaInput} {areas : List Area}
    (hareas : readAreas inputs = .ok areas) (hdb : Still id db.contractors db.areas) :
    (replace atlas id areas).run.Alone (registry atlas) i
        (fun r db' => ∃ unknown, r = .ok unknown ∧ ReplacedExactly codes id i areas unknown db') db ↔
      (knownCodes atlas (codesOf areas)).Nodup ∧
        (knownCodes atlas (codesOf areas)).length < maxAreas := by
  have hreplace := @alone_replace atlas id i db areas hdb
  rw [List.take_of_length_le (length_le_of_readAreas hareas), nodup_regionIds codes] at hreplace
  obtain ⟨hpos, hmax, hradius⟩ := stored_of_readAreas hareas
  constructor
  · intro hexact
    obtain ⟨_, db', ⟨hcovers, unknown, rfl, hiff⟩, unknown', hunknown, h⟩ :=
      (hreplace.and hexact).exists
    obtain rfl := Except.ok.inj hunknown
    have hnodup := hiff.mp h.unknown
    exact ⟨hnodup, (alone_replace_forContractor codes ⟨hpos, hmax⟩ hnodup hcovers).mp h.readBack⟩
  · rintro ⟨hnodup, hroom⟩
    refine hreplace.mono ?_
    rintro _ db' ⟨hcovers, unknown, rfl, hiff⟩
    refine ⟨unknown, rfl, congrArg Coverage.regions hcovers.2, ?_, hiff.mpr hnodup,
      (alone_replace_forContractor codes ⟨hpos, hmax⟩ hnodup hcovers).mpr hroom⟩
    have hstored : (db'.coverage id).radiusM = some (radiusOf areas) :=
      congrArg Coverage.radiusM hcovers.2
    rw [hstored, Option.map_some, hradius]

end ReadBack

/-- The codes of the regions of `Atlas.plain`, of which there is one. -/
theorem plain_code (c : Text) (region : Directory.Region)
    (h : Atlas.plain.findZcta c = some region) : "90210".toList = c := by
  have h : (if c = "90210".toList then some _ else none) = some region := h
  split at h
  · rename_i hc
    exact hc.symm
  · cases h

def Codes.plain : Codes .plain := ⟨fun _ => "90210".toList, plain_code⟩

/-- A list that is written exactly, with one code that has no region. -/
theorem replace_exact_iff_movesAway :
    (replace .plain 1 [.region "90210".toList, .radius 5000, .region "00000".toList]).run.Alone
        (registry .plain) 0 (fun r db' => ∃ unknown, r = .ok unknown ∧
          ReplacedExactly .plain 1 0 [.region "90210".toList, .radius 5000, .region "00000".toList]
            unknown db') servingDb :=
  (replace_exact_iff .plain
    (show readAreas [.region "90210".toList, .radius 5000, .region "00000".toList] = .ok _ from rfl)
    still_servingDb).mpr ⟨by decide, by decide⟩

/-- **A code that is given twice** is answered as one that has no region. -/
theorem not_replace_exact :
    ¬ ∀ (inputs : List ServiceAreaInput) (areas : List Area), readAreas inputs = .ok areas →
      (replace .plain 1 areas).run.Alone (registry .plain) 0
        (fun r db' => ∃ unknown, r = .ok unknown ∧ ReplacedExactly .plain 1 0 areas unknown db')
          servingDb := by
  intro h
  have hexact := h [.region "90210".toList, .region "90210".toList] _ rfl
  obtain ⟨_, db', ⟨-, unknown, rfl, hiff⟩, unknown', hunknown, h⟩ :=
    ((alone_replace _ still_servingDb).and hexact).exists
  obtain rfl := Except.ok.inj hunknown
  exact absurd (hiff.mp h.unknown) (by decide)

end Marketplace.Registry
