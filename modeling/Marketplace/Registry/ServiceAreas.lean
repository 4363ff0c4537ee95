import Marketplace.ReadCommitted.Sections
import Marketplace.ReadCommitted.Truthful
import Marketplace.Registry.Footprint
import Mathlib.Data.Set.Insert

/-!
# Where a listing serves, replaced

What a claimant declares of where a listing serves is written by statements of their own: the
regions are deleted, the radius is set, and the new regions are added, one by one. No transaction
holds them together, and no lock keeps two such replacements apart.

So a request that fails after its `DELETE` leaves a listing without its regions, and two requests
that are served at a time may leave the radius of one and regions of both. Where replacements are
taken in turn, and none is cut short once its `DELETE` is committed, each is made as a whole or not
at all (`Marketplace.Registry.putServiceAreas_atomic`).
-/

namespace Marketplace.Registry

open ReadCommitted

variable (atlas : Atlas) (id : Uuid)

/-! ### What a listing covers -/

/-- **Where a listing serves**: its radius, and its regions. -/
@[ext]
structure Coverage where
  radiusM : Option ℕ
  regions : Set Uuid

/-- What is published of where a listing serves. -/
def coverageIn (contractors : Listings) (areas : Table ℕ AreaKey Unit) : Coverage where
  radiusM := (contractors.slot id).committed.map Contractor.serviceRadiusM
  regions := {r | (areas.slot ⟨id, r⟩).committed ≠ none}

/-- Where a listing serves, as the database has it. -/
def Db.coverage (db : Db) : Coverage := coverageIn id db.contractors db.areas

/-- The regions that some ZIP codes name. -/
def regionsOf (codes : List Text) : Set Uuid :=
  {r | ∃ code ∈ codes, ∃ region, atlas.findZcta code = some region ∧ region.id = r}

/-- Where a listing serves, once this is declared. -/
def DeclaredAreas.coverage (declared : DeclaredAreas) : Coverage where
  radiusM := some (declared.radiusM.getD Directory.defaultServiceRadiusM)
  regions := regionsOf atlas (declared.codes.take maxAreas)

/-! ### The requests -/

/-- A request to replace where the listing serves. -/
structure AreasRequest where
  caller : Uuid
  inputs : List ServiceAreaInput
  deriving DecidableEq

/-- **The requests about one listing.** -/
def areaRequests : System ℕ Db AreasRequest (Except AppError (List Text)) Query where
  run := Query.run atlas
  rollback := .rollback
  tick := fun n db => { db with clock := db.clock + n }
  program := fun _ r => (putServiceAreas atlas r.caller id r.inputs).run

/-- A program of such a request, or what is left of one. -/
abbrev AreasProg : Type 1 := Prog ℕ Db Query (Except AppError (List Text))

/-- The replacement that a request makes. -/
def Replaces (r : AreasRequest) (p : AreasProg) : Prop :=
  ∃ declared, declareAreas r.inputs = .ok declared ∧ p = (replaceAreas atlas id declared).run

/-- The `DELETE` is committed, and what is left can but succeed. -/
def Deleted (p : AreasProg) : Prop :=
  (p.Each fun q => ¬ q.isCommit) ∧ p.Comes (areaRequests atlas id) fun a => a.isOk = true

/-- A request has failed: its process is dead, or an error was answered. -/
def Failed (c : Config ℕ Db AreasRequest (Except AppError (List Text)) Query) (i : ℕ) : Prop :=
  c.procs i = .dead ∨ ∃ r e, c.Served i r (.error e)

/-! ### The shape of a replacement -/

variable {atlas id} {r : AreasRequest}

theorem closedIn_deleted : ClosedIn (areaRequests atlas id) (Deleted atlas id) :=
  ⟨fun h b => ⟨h.1 b, h.2 b⟩, fun h hb => ⟨h.1.2 _, h.2 _ hb⟩⟩

theorem approaches_putServiceAreas {caller : Uuid} {inputs : List ServiceAreaInput} :
    (putServiceAreas atlas caller id inputs).run.Approaches (Replaces atlas id ⟨caller, inputs⟩) := by
  rw [putServiceAreas]
  split
  · exact .ret _
  next declared hdeclared =>
    refine .read fun owned => ?_
    show (if owned = some id then replaceAreas atlas id declared else throw .forbidden :
      Registering (List Text)).run.Approaches _
    split
    · exact .entry ⟨declared, hdeclared, rfl⟩
    · exact .ret _

/-- A radius that may be declared may be stored. -/
theorem radius_of_declareEach {inputs : List ServiceAreaInput} {before declared : DeclaredAreas}
    (hbefore : ∀ n, before.radiusM = some n → 0 < n ∧ n ≤ maxRadiusM)
    (h : declareEach before inputs = .ok declared) :
    ∀ n, declared.radiusM = some n → 0 < n ∧ n ≤ maxRadiusM := by
  induction inputs generalizing before with
  | nil =>
    cases h
    exact hbefore
  | cons input inputs ih =>
    cases input with
    | region code =>
      rw [declareEach] at h
      split at h
      · have hsame : ∀ n, ({ before with codes := before.codes ++ [trim code] } :
            DeclaredAreas).radiusM = some n → 0 < n ∧ n ≤ maxRadiusM := hbefore
        exact ih hsame h
      · cases h
    | radius radiusM =>
      rw [declareEach] at h
      split at h
      · cases h
      · split at h
        next hwithin =>
          refine ih (fun n hn => ?_) h
          cases hn
          omega
        · cases h

theorem checks_serviceRadius {inputs : List ServiceAreaInput} {declared : DeclaredAreas}
    (h : declareAreas inputs = .ok declared) :
    (Change.serviceRadius (declared.radiusM.getD Directory.defaultServiceRadiusM)).checks = true := by
  rw [declareAreas] at h
  split at h
  · cases h
  · have hnone : ∀ n, ({} : DeclaredAreas).radiusM = some n → 0 < n ∧ n ≤ maxRadiusM :=
      fun n hn => nomatch hn
    have hwithin := radius_of_declareEach hnone h
    refine decide_eq_true ?_
    rcases hradius : declared.radiusM with _ | n
    · exact ⟨by decide, by decide⟩
    · exact hwithin n hradius

/-- An update that may be stored is not refused. -/
theorem answer_update {m : Mode} {k : Uuid} {change : Change} {i : ℕ} {db db' : Db}
    {b : Option Bool} (hchecks : change.checks = true)
    (h : (Query.listing m (.update k change)).run atlas i db = some (b, db')) : b ≠ none := by
  obtain ⟨⟨b', t⟩, ht, he⟩ := Option.map_eq_some_iff.mp h
  cases he
  obtain ⟨-, rfl, -⟩ := Table.modify_cases ht
  rcases db.contractors.row i k with _ | c
  · nofun
  · simp [Table.checking, hchecks]

theorem deleted_addAreas {codes : List Text} :
    Deleted atlas id (addAreas atlas id codes).run := by
  refine ⟨each_addAreas fun _ => not_false, ?_⟩
  induction codes with
  | nil => rfl
  | cons code codes ih =>
    have hnew : (addArea atlas id code).run.Comes (areaRequests atlas id) fun a => a.isOk = true := by
      rw [addArea]
      split
      · exact fun _ _ => rfl
      · rfl
    refine hnew.bind fun new hok => ?_
    rcases new with e | new
    · cases hok
    · refine ih.bind fun unknown hok => ?_
      rcases unknown with e | unknown
      · cases hok
      · rfl

theorem deleted_updateListing {declared : DeclaredAreas} {inputs : List ServiceAreaInput}
    (h : declareAreas inputs = .ok declared) :
    Deleted atlas id (do
      updateListing .auto id
        (.serviceRadius (declared.radiusM.getD Directory.defaultServiceRadiusM))
      addAreas atlas id (declared.codes.take maxAreas) : Registering (List Text)).run := by
  refine ⟨Action.each_andThen (each_updateListing not_false) fun _ =>
    (deleted_addAreas).1, ?_⟩
  have hradius : (updateListing .auto id (.serviceRadius
      (declared.radiusM.getD Directory.defaultServiceRadiusM))).run.Comes (areaRequests atlas id)
      fun a => a.isOk = true := by
    rintro b ⟨i, db, db', hrun⟩
    have hrun : Query.run atlas (.listing .auto (.update id (.serviceRadius
      (declared.radiusM.getD Directory.defaultServiceRadiusM)))) i db = some (b, db') := hrun
    rcases b with _ | b
    · exact absurd rfl (answer_update (checks_serviceRadius h) hrun)
    · rfl
  refine hradius.bind fun a hok => ?_
  rcases a with e | a
  · cases hok
  · exact deleted_addAreas.2

/-- **A replacement seals itself** by its `DELETE`. -/
theorem seals_replaceAreas {declared : DeclaredAreas} {inputs : List ServiceAreaInput}
    (h : declareAreas inputs = .ok declared) :
    (replaceAreas atlas id declared).run.Seals (areaRequests atlas id) Query.publishes
      (Deleted atlas id) := by
  refine seals_transaction_andThen closedIn_deleted (fun old => ?_) nofun fun _ =>
    deleted_updateListing h
  exact Action.each_ofProg (Prog.each_countEach fun key => ⟨nofun, fun _ => trivial⟩)

/-! ### A replacement that has the two tables to itself -/

variable (id) in
/-- Nobody but `i` holds a row of the two tables, and the listing is there to stay. -/
structure Db.HeldBy (i : ℕ) (db : Db) : Prop where
  listings : ∀ k j v, (db.contractors.slot k).lock = some (j, v) → j = i
  areas : ∀ k j v, (db.areas.slot k).lock = some (j, v) → j = i
  lasts : db.contractors.Ordered (Lasts fun _ => ())
  there : ∃ c, (db.contractors.slot id).committed = some c

theorem run_area {β : Type} {m : Mode} {q : MemberStatement AreaKey β} {i : ℕ} {db db' : Db} {b : β}
    (h : (Query.area m q).run atlas i db = some (b, db')) :
    ∃ t, q.run m i db.areas = some (b, t) ∧ db' = { db with areas := t } := by
  obtain ⟨⟨b', t⟩, ht, he⟩ := Option.map_eq_some_iff.mp h
  cases he
  exact ⟨t, ht, rfl⟩

theorem run_listing {β : Type} {m : Mode} {q : ListingStatement β} {i : ℕ} {db db' : Db} {b : β}
    (h : (Query.listing m q).run atlas i db = some (b, db')) :
    ∃ t, q.run atlas m i db.contractors = some (b, t) ∧ db' = { db with contractors := t } := by
  obtain ⟨⟨b', t⟩, ht, he⟩ := Option.map_eq_some_iff.mp h
  cases he
  exact ⟨t, ht, rfl⟩

theorem MemberStatement.moves {K β : Type} [DecidableEq K] {m : Mode} {i : ℕ}
    {q : MemberStatement K β} {t t' : Table ℕ K Unit} {b : β} (h : q.run m i t = some (b, t')) :
    t.Moves i t' := by
  cases q with
  | add k => exact (Table.effect_of_modify (A := fun _ _ _ => True) h fun _ _ => trivial).moves
  | drop k =>
    obtain ⟨hfree, ⟨-, -, rfl⟩ | ⟨-, -, rfl⟩⟩ := Table.remove_cases h
    · exact .refl i _
    · refine Table.moves_put ?_
      cases m with
      | tx => exact .write hfree none
      | auto => exact .autocommit hfree none

namespace Query

variable {β : Type} {q : Query β} {i : ℕ} {db db' : Db} {b : β}

theorem areas_moves (h : q.run atlas i db = some (b, db')) : db.areas.Moves i db'.areas := by
  cases q with
  | area m q =>
    obtain ⟨t, ht, rfl⟩ := run_area h
    exact MemberStatement.moves ht
  | commit =>
    cases h
    exact Table.moves_commit i _
  | rollback =>
    cases h
    exact Table.moves_rollback i _
  | license | addVersion | importRun | listing | trade | job | claim | grantRole | recordCheck
  | record =>
    obtain ⟨⟨b', t⟩, ht, he⟩ := Option.map_eq_some_iff.mp h
    cases he
    exact .refl i _

/-- A listing is not deleted. -/
theorem lasts (h : q.run atlas i db = some (b, db'))
    (hlasts : db.contractors.Ordered (Lasts fun _ => ())) :
    db'.contractors.Ordered (Lasts fun _ => ()) ∧
      Table.Grown (Lasts fun _ => ()) db.contractors db'.contractors :=
  (contractors_effect h).ordered .refl .trans hlasts fun _ c _ _ _ => ⟨c, rfl, rfl⟩

/-- A process that alone holds rows is left the only one by what it does. -/
theorem heldBy (h : q.run atlas i db = some (b, db')) (hheld : db.HeldBy id i) :
    db'.HeldBy id i := by
  obtain ⟨hlasts, hgrown⟩ := lasts h hheld.lasts
  obtain ⟨c, hc⟩ := hheld.there
  obtain ⟨c', hc', -⟩ := hgrown id c hc
  refine ⟨fun k j v hlock => ?_, fun k j v hlock => ?_, hlasts, c', hc'⟩
  · by_contra hne
    exact hne (hheld.listings k j v (((contractors_effect h).moves k).lock_of_other hlock hne))
  · by_contra hne
    exact hne (hheld.areas k j v ((areas_moves h k).lock_of_other hlock hne))

end Query

/-- A process that holds no row of a table has nothing there to roll back. -/
theorem rollback_eq_self {K R : Type} {i : ℕ} {t : Table ℕ K R}
    (h : ∀ k j v, (t.slot k).lock = some (j, v) → j ≠ i) : t.rollback i = t := by
  have hslot : ∀ k, (t.slot k).rollback i = t.slot k := by
    intro k
    rcases hlock : (t.slot k).lock with _ | ⟨j, v⟩
    · exact Slot.rollback_of_unlocked hlock
    · exact Slot.rollback_of_other hlock (h k j v hlock)
  cases t
  simp only [Table.rollback, Table.mk.injEq, true_and]
  exact funext hslot

variable (atlas id) in
/-- **A process that has the two tables to itself**: nobody else holds a row of them, or writes
one. -/
def alone (i : ℕ) : Contract (areaRequests atlas id) anyQuery where
  inv := Db.HeldBy id i
  guar j db db' := j ≠ i → db'.contractors = db.contractors ∧ db'.areas = db.areas
  inv_tick _ h := ⟨h.listings, h.areas, h.lasts, h.there⟩
  rollback := by
    rintro j db db' h - hrun
    have hrun : Query.rollback.run atlas j db = some ((), db') := hrun
    obtain ⟨hlasts, hgrown⟩ := Query.lasts hrun h.lasts
    obtain ⟨c, hc⟩ := h.there
    obtain ⟨c', hc', -⟩ := hgrown id c hc
    cases hrun
    refine ⟨⟨fun k l v hlock => h.listings k l v (Slot.lock_of_rollback hlock).2,
      fun k l v hlock => h.areas k l v (Slot.lock_of_rollback hlock).2, hlasts, c', hc'⟩,
      fun hne => ⟨?_, ?_⟩⟩
    · exact rollback_eq_self fun k l v hlock => h.listings k l v hlock ▸ hne.symm
    · exact rollback_eq_self fun k l v hlock => h.areas k l v hlock ▸ hne.symm

/-- What is known of the two tables. -/
def tables {i : ℕ} (known : Listings → Table ℕ AreaKey Unit → Prop) :
    Assertion (alone atlas id i) i where
  holds db := known db.contractors db.areas
  stable := by
    intro j db db' hne _ _ hguar h
    obtain ⟨hcontractors, hareas⟩ := hguar hne
    rw [hcontractors, hareas]
    exact h
  tick _ _ h := h

variable (id) in
/-- **Nothing is under way**: no row of the two tables is held, and the listing is there. -/
structure Still (contractors : Listings) (areas : Table ℕ AreaKey Unit) : Prop where
  free : ∀ k, (contractors.slot k).lock = none
  areas_free : ∀ k, (areas.slot k).lock = none
  there : ∃ c, (contractors.slot id).committed = some c

variable (id) in
/-- The regions of the listing are being deleted, and these are left. -/
structure Clearing (i : ℕ) (left : List AreaKey) (contractors : Listings)
    (areas : Table ℕ AreaKey Unit) : Prop where
  free : ∀ k, (contractors.slot k).lock = none
  there : ∃ c, (contractors.slot id).committed = some c
  left : ∀ r, areas.row i ⟨id, r⟩ ≠ none → ⟨id, r⟩ ∈ left

/-- The regions are deleted, one after the other. -/
theorem safe_drops {i : ℕ} {old : List AreaKey} :
    Safe (fun _ => tables (Clearing id i []))
      (Prog.countEach old fun key => .query (.area .tx (.drop key)) .ret)
      (tables (Clearing id i old) : Assertion (alone atlas id i) i) := by
  refine Safe.countEach (fun left => tables (Clearing id i left)) (fun key left => ?_) old
  refine Safe.query (fun _ => tables (Clearing id i left)) (fun db b db' hheld h _ hrun => ?_)
    fun _ => Safe.ret fun _ _ h => h
  have h : Clearing id i (key :: left) db.contractors db.areas := h
  have hrun : (Query.area .tx (.drop key)).run atlas i db = some (b, db') := hrun
  have hheld' := Query.heldBy hrun hheld
  obtain ⟨t, ht, rfl⟩ := run_area hrun
  refine ⟨hheld', fun hne => absurd rfl hne, h.free, h.there, fun r hr => ?_⟩
  obtain ⟨-, ⟨-, hnone, rfl⟩ | ⟨-, -, rfl⟩⟩ := Table.remove_cases ht
  · rcases List.mem_cons.mp (h.left r hr) with rfl | hleft
    · obtain ⟨u, hu⟩ := Option.ne_none_iff_exists'.mp hr
      have hu : db.areas.row i ⟨id, r⟩ = some u := hu
      rw [hu] at hnone
      cases hnone
    · exact hleft
  · have hne : (⟨id, r⟩ : AreaKey) ≠ key := by
      rintro rfl
      refine hr ?_
      show ((db.areas.put _ _).slot _).visible i = none
      rw [Table.slot_put_self]
      exact Slot.visible_write
    have hr : (db.areas.put key _).row i ⟨id, r⟩ ≠ none := hr
    rw [Table.row_put_of_ne hne] at hr
    exact (List.mem_cons.mp (h.left r hr)).resolve_left hne

variable (id) in
/-- Nothing is under way, and the listing covers this. -/
def Covers (v : Coverage) (contractors : Listings) (areas : Table ℕ AreaKey Unit) : Prop :=
  Still id contractors areas ∧ coverageIn id contractors areas = v

variable (id) in
/-- The listing serves no region. -/
def Cleared (contractors : Listings) (areas : Table ℕ AreaKey Unit) : Prop :=
  Still id contractors areas ∧ (coverageIn id contractors areas).regions = ∅

/-- **The `DELETE`**, with its commit. -/
theorem safe_delete {i : ℕ} :
    Safe (Assertion.onOk (fun _ => tables (Cleared id)) fun _ => .fact False)
      (Action.transaction (ε := AppError) .commit .rollback (do
        let old ← Action.look (areasOf id)
        Action.ofProg (Prog.countEach old fun key => .query (.area .tx (.drop key)) .ret))).run
      (tables (Still id) : Assertion (alone atlas id i) i) := by
  refine Safe.transaction (Assertion.onOk (fun _ => tables (Clearing id i [])) fun _ => .fact False)
    ?_ (fun n db b db' hheld h _ hrun => ?_) fun _ _ _ _ _ h => h.elim
  · refine Safe.look_andThen (fun old => tables (Clearing id i old)) (fun db _ h => ?_) fun old =>
      Safe.ofProg safe_drops
    have h : Still id db.contractors db.areas := h
    refine ⟨h.free, h.there, fun r hr => ?_⟩
    obtain ⟨u, hu⟩ := Option.ne_none_iff_exists'.mp hr
    exact Table.mem_scan.mpr ⟨u, hu, decide_eq_true rfl⟩
  · have h : Clearing id i [] db.contractors db.areas := h
    have hrun : Query.commit.run atlas i db = some (b, db') := hrun
    have hheld' := Query.heldBy hrun hheld
    cases hrun
    have hslot : ∀ k, (db.contractors.slot k).commit i = db.contractors.slot k := fun k =>
      Slot.commit_of_unlocked (h.free k)
    refine ⟨hheld', fun hne => absurd rfl hne, ⟨fun k => ?_, fun k => ?_, ?_⟩, ?_⟩
    · exact (congrArg Slot.lock (hslot k)).trans (h.free k)
    · rcases hlock : ((db.areas.commit i).slot k).lock with _ | ⟨j, v⟩
      · exact hlock
      · obtain ⟨hne, hold⟩ := Slot.lock_of_commit hlock
        exact absurd (hheld.areas k j v hold) hne
    · obtain ⟨c, hc⟩ := h.there
      exact ⟨c, (congrArg Slot.committed (hslot id)).trans hc⟩
    · refine Set.eq_empty_of_forall_notMem fun r hr => ?_
      have hr : ((db.areas.slot ⟨id, r⟩).commit i).committed ≠ none := hr
      rw [Slot.commit_committed] at hr
      exact List.not_mem_nil (h.left r hr)

/-- **The radius is set.** -/
theorem safe_radius {i radiusM : ℕ} (hchecks : (Change.serviceRadius radiusM).checks = true) :
    Safe (Assertion.onOk (fun _ => tables (Covers id ⟨some radiusM, ∅⟩)) fun _ => .fact False)
      (updateListing .auto id (.serviceRadius radiusM)).run
      (tables (Cleared id) : Assertion (alone atlas id i) i) := by
  refine Safe.query_andThen (fun updated => if updated = none then .fact False
    else tables (Covers id ⟨some radiusM, ∅⟩)) (fun db b db' hheld h _ hrun => ?_) fun updated => ?_
  · obtain ⟨hstill, hregions⟩ := h
    have hrun : (Query.listing .auto (.update id (.serviceRadius radiusM))).run atlas i db =
        some (b, db') := hrun
    have hheld' := Query.heldBy hrun hheld
    rw [if_neg (answer_update hchecks hrun)]
    obtain ⟨t, ht, rfl⟩ := run_listing hrun
    obtain ⟨c, hc⟩ := hstill.there
    have hrow : db.contractors.row i id = some c :=
      (Slot.visible_of_unlocked (hstill.free id)).trans hc
    have hslot : t.slot id = ⟨some ((Change.serviceRadius radiusM).apply c), none⟩ :=
      Table.slot_modify ht (by simp [hrow, Table.checking, hchecks])
    refine ⟨hheld', fun hne => absurd rfl hne, ⟨fun k => ?_, hstill.areas_free, ?_⟩, ?_⟩
    · rcases eq_or_ne k id with rfl | hne
      · exact congrArg Slot.lock hslot
      · exact (congrArg Slot.lock (Table.slot_modify_of_ne ht hne)).trans (hstill.free k)
    · exact ⟨_, congrArg Slot.committed hslot⟩
    · refine Coverage.ext ?_ hregions
      show ((t.slot id).committed).map Contractor.serviceRadiusM = some radiusM
      rw [hslot]
      rfl
  · rcases updated with _ | updated
    · exact Safe.ret fun _ _ h => h.elim
    · exact Safe.ret fun _ _ h => h

theorem regionsOf_cons {code : Text} {codes : List Text} :
    regionsOf atlas (code :: codes) = regionsOf atlas [code] ∪ regionsOf atlas codes := by
  ext r
  simp [regionsOf]

theorem regionsOf_of_some {code : Text} {region : Directory.Region}
    (h : atlas.findZcta code = some region) : regionsOf atlas [code] = {region.id} := by
  ext r
  simp [regionsOf, h, eq_comm]

theorem regionsOf_of_none {code : Text} (h : atlas.findZcta code = none) :
    regionsOf atlas [code] = ∅ := by
  ext r
  simp [regionsOf, h]

/-- **A region is served**, if there is one of this code. -/
theorem safe_addArea {i : ℕ} {code : Text} {v : Coverage} :
    Safe (Assertion.onOk (fun _ => tables (Covers id ⟨v.radiusM, v.regions ∪ regionsOf atlas [code]⟩))
      fun _ => .fact False) (addArea atlas id code).run
      (tables (Covers id v) : Assertion (alone atlas id i) i) := by
  rw [addArea]
  split
  next region hregion =>
    refine Safe.query (fun _ => tables (Covers id ⟨v.radiusM, v.regions ∪ regionsOf atlas [code]⟩))
      (fun db b db' hheld h _ hrun => ?_) fun _ => Safe.ret fun _ _ h => h
    obtain ⟨hstill, rfl⟩ := h
    have hrun : (Query.area .auto (.add ⟨id, region.id⟩)).run atlas i db = some (b, db') := hrun
    have hheld' := Query.heldBy hrun hheld
    obtain ⟨t, ht, rfl⟩ := run_area hrun
    have ht : db.areas.modify .auto i ⟨id, region.id⟩ (Table.inserting ()) = some (b, t) := ht
    have hself : t.slot ⟨id, region.id⟩ = ⟨some (), none⟩ := by
      obtain ⟨-, -, ⟨hnone, rfl⟩ | ⟨u, -, rfl⟩⟩ := Table.modify_cases ht
      · rcases hrow : db.areas.row i ⟨id, region.id⟩ with _ | u
        · rw [hrow] at hnone
          cases hnone
        · have hfree := hstill.areas_free ⟨id, region.id⟩
          exact Slot.ext ((Slot.visible_of_unlocked hfree).symm.trans hrow) hfree
      · exact Table.slot_put_self
    have hother : ∀ k, k ≠ ⟨id, region.id⟩ → t.slot k = db.areas.slot k := fun k hne =>
      Table.slot_modify_of_ne ht hne
    refine ⟨hheld', fun hne => absurd rfl hne, ⟨hstill.free, fun k => ?_, hstill.there⟩, ?_⟩
    · by_cases hk : k = ⟨id, region.id⟩
      · rw [hk, hself]
      · exact (congrArg Slot.lock (hother k hk)).trans (hstill.areas_free k)
    · refine Coverage.ext rfl (Set.ext fun r => ?_)
      rw [regionsOf_of_some hregion]
      show (t.slot ⟨id, r⟩).committed ≠ none ↔ _ ∨ r = region.id
      by_cases hr : r = region.id
      · subst hr
        rw [hself]
        exact iff_of_true (Option.some_ne_none _) (Or.inr rfl)
      · rw [hother ⟨id, r⟩ fun he => hr (AreaKey.mk.inj he).2, or_iff_left hr]
        rfl
  next hnone =>
    refine Safe.ret fun db _ h => ?_
    rw [regionsOf_of_none hnone, Set.union_empty]
    exact h

/-- **The regions are added**, one after the other. -/
theorem safe_addAreas {i : ℕ} {codes : List Text} {v : Coverage} :
    Safe (Assertion.onOk (fun _ => tables (Covers id ⟨v.radiusM, v.regions ∪ regionsOf atlas codes⟩))
      fun _ => .fact False) (addAreas atlas id codes).run
      (tables (Covers id v) : Assertion (alone atlas id i) i) := by
  induction codes generalizing v with
  | nil =>
    refine Safe.ret fun db _ h => ?_
    have hnone : regionsOf atlas [] = ∅ := by simp [regionsOf]
    rw [hnone, Set.union_empty]
    exact h
  | cons code codes ih =>
    refine Safe.andThen _ safe_addArea fun new => Safe.andThen _ ih fun unknown => ?_
    refine Safe.ret fun db _ h => ?_
    rw [regionsOf_cons, ← Set.union_assoc]
    exact h

/-- **A replacement that has the two tables to itself** makes the listing cover what is declared. -/
theorem safe_replaceAreas {i : ℕ} {inputs : List ServiceAreaInput} {declared : DeclaredAreas}
    (h : declareAreas inputs = .ok declared) :
    Safe (Assertion.onOk (fun _ => tables (Covers id (declared.coverage atlas))) fun _ => .fact False)
      (replaceAreas atlas id declared).run
      (tables (Still id) : Assertion (alone atlas id i) i) := by
  refine Safe.andThen _ safe_delete fun _ =>
    Safe.andThen _ (safe_radius (checks_serviceRadius h)) fun _ => ?_
  have hadd : Safe (Assertion.onOk (fun _ => tables (Covers id
      ⟨some (declared.radiusM.getD Directory.defaultServiceRadiusM),
        ∅ ∪ regionsOf atlas (declared.codes.take maxAreas)⟩)) fun _ => .fact False)
      (addAreas atlas id (declared.codes.take maxAreas)).run
      (tables (Covers id ⟨some (declared.radiusM.getD Directory.defaultServiceRadiusM), ∅⟩) :
        Assertion (alone atlas id i) i) := safe_addAreas (v := ⟨_, ∅⟩)
  rw [Set.empty_union] at hadd
  exact hadd

/-! ### Whole runs -/

namespace Query

variable {β : Type} {q : Query β} {i : ℕ} {db db' : Db} {b : β}

theorem areas_eq (h : q.run atlas i db = some (b, db')) (hq : ¬ q.publishes) (k : AreaKey) :
    (db'.areas.slot k).committed = (db.areas.slot k).committed := by
  cases q with
  | area m q =>
    obtain ⟨t, ht, rfl⟩ := run_area h
    cases m with
    | auto => exact absurd rfl hq
    | tx =>
      cases q with
      | add k' => exact Table.committed_modify ht k
      | drop k' => exact Table.committed_remove ht k
  | commit => exact absurd trivial hq
  | rollback =>
    cases h
    exact Slot.rollback_committed
  | license | addVersion | importRun | listing | trade | job | claim | grantRole | recordCheck
  | record =>
    obtain ⟨⟨b', t⟩, ht, he⟩ := Option.map_eq_some_iff.mp h
    cases he
    rfl

/-- **Where a listing serves changes by nothing but what is published.** -/
theorem coverage_eq (h : q.run atlas i db = some (b, db')) (hq : ¬ q.publishes) :
    db'.coverage id = db.coverage id := by
  have hlistings : ∀ k, (db'.contractors.slot k).committed = (db.contractors.slot k).committed :=
    fun k => congrFun (congrArg Prod.fst (shown_eq h hq)) k
  refine Coverage.ext ?_ (Set.ext fun r => ?_)
  · exact congrArg (Option.map Contractor.serviceRadiusM) (hlistings id)
  · show _ ≠ none ↔ _ ≠ none
    rw [areas_eq h hq]

end Query

variable (atlas) in
/-- The request declares this. -/
def AreasRequest.Declares (r : AreasRequest) (v : Coverage) : Prop :=
  ∃ declared, declareAreas r.inputs = .ok declared ∧ v = declared.coverage atlas

/-- **The discipline of replacements.** -/
def replacements : Turns (areaRequests atlas id) (Replaces atlas id) (Deleted atlas id)
    Query.publishes (Db.coverage id) fun r a v => a.isOk = true ∧ r.Declares atlas v where
  contract := alone atlas id
  post := fun i r => Assertion.onOk (fun _ => tables fun contractors areas =>
    ∃ v, r.Declares atlas v ∧ Covers id v contractors areas) fun _ => .fact False
  quiet := fun db => Still id db.contractors db.areas
  closed := closedIn_deleted
  approaches := fun _ _ => approaches_putServiceAreas
  seals := by
    rintro r e ⟨declared, hdeclared, rfl⟩
    exact seals_replaceAreas hdeclared
  safe := by
    rintro i r e ⟨declared, hdeclared, rfl⟩
    refine ⟨tables (Still id), fun db h => ⟨⟨?_, ?_, ?_, h.there⟩, h⟩, ?_⟩
    · intro k j v hlock
      cases (h.free k).symm.trans hlock
    · intro k j v hlock
      cases (h.areas_free k).symm.trans hlock
    · exact Table.ordered_of_unlocked h.free
    · refine (safe_replaceAreas hdeclared).conseq (fun _ _ h => h) fun a db _ h => ?_
      rcases a with e | unknown
      · exact h
      · exact ⟨_, ⟨declared, hdeclared, rfl⟩, h⟩
  finish := by
    rintro i r a db - h
    rcases a with e | unknown
    · exact h.elim
    · obtain ⟨v, hv, hstill, rfl⟩ := h
      exact ⟨hstill, rfl, hv⟩
  sealed_of_good := by
    rintro r a v ⟨hok, -⟩
    exact ⟨trivial, hok⟩
  not_pub_rollback := fun h => h
  view_query := fun q i db b db' hq hrun => Query.coverage_eq hrun hq
  view_tick := fun _ _ => rfl
  quiet_tick := fun _ _ h => ⟨h.free, h.areas_free, h.there⟩
  quiet_rollback := by
    rintro i db db' h hrun
    cases hrun
    refine ⟨fun k => ?_, fun k => ?_, ?_⟩
    · exact (congrArg Slot.lock (Slot.rollback_of_unlocked (h.free k))).trans (h.free k)
    · exact (congrArg Slot.lock (Slot.rollback_of_unlocked (h.areas_free k))).trans (h.areas_free k)
    · obtain ⟨c, hc⟩ := h.there
      exact ⟨c, Slot.rollback_committed.trans hc⟩
  quiet_of_rollback := by
    rintro i db db' h hrun
    have hrun : Query.rollback.run atlas i db = some ((), db') := hrun
    have hheld := Query.heldBy hrun h
    cases hrun
    refine ⟨fun k => ?_, fun k => ?_, hheld.there⟩
    · rcases hlock : ((db.contractors.rollback i).slot k).lock with _ | ⟨j, v⟩
      · exact hlock
      · exact absurd (hheld.listings k j v hlock) (Slot.lock_of_rollback hlock).1
    · rcases hlock : ((db.areas.rollback i).slot k).lock with _ | ⟨j, v⟩
      · exact hlock
      · exact absurd (hheld.areas k j v hlock) (Slot.lock_of_rollback hlock).1

/-- A configuration of the requests about one listing. -/
abbrev AreasConfig : Type 1 := Config ℕ Db AreasRequest (Except AppError (List Text)) Query

variable (atlas id) in
/-- **Replacement is atomic**, along the runs that some steps make up: no step of a request that
fails changes where the listing serves, and when all requests have ended, that is as it was at
first, or as one request declared that succeeded. -/
def Atomic (step : AreasConfig → AreasConfig → Prop) (c₀ : AreasConfig) : Prop :=
  (∀ c d e i, Relation.ReflTransGen step c₀ c → step c d → Relation.ReflTransGen step d e →
    StepOf (areaRequests atlas id) anyQuery i c d → Failed e i →
    d.db.coverage id = c.db.coverage id) ∧
  ∀ c, Relation.ReflTransGen step c₀ c →
    (∀ i r p, c.procs i = .running r p → ∃ a, p = .ret a) →
    c.db.coverage id = c₀.db.coverage id ∨
      ∃ i r unknown, c.Served i r (.ok unknown) ∧ r.Declares atlas (c.db.coverage id)

variable (atlas id) in
/-- **One step of a run in which replacements are taken in turn**: none goes on while another one is
in the midst of its own, and no request dies once its `DELETE` is committed. -/
def InTurn : AreasConfig → AreasConfig → Prop :=
  ReadCommitted.Orderly (areaRequests atlas id) (Replaces atlas id) (Deleted atlas id)

theorem seals_putServiceAreas {caller : Uuid} {inputs : List ServiceAreaInput} :
    (putServiceAreas atlas caller id inputs).run.Seals (areaRequests atlas id) Query.publishes
      (Deleted atlas id) := by
  rw [putServiceAreas]
  split
  · trivial
  next declared hdeclared =>
    intro owned
    show (if owned = some id then replaceAreas atlas id declared else throw .forbidden :
      Registering (List Text)).run.Seals _ _ _
    split
    · exact seals_replaceAreas hdeclared
    · trivial

/-- **Replacements that are taken in turn are atomic**, when none dies once its `DELETE` is
committed. -/
theorem putServiceAreas_atomic {db : Db} (hdb : Still id db.contractors db.areas) :
    Atomic atlas id (InTurn atlas id) (.initial db) := by
  refine ⟨fun c d e i hc _ he hstep hfailed => ?_, fun c hc hended => ?_⟩
  · have hrollback : ¬ Query.publishes (.rollback : Query Unit) := fun h => h
    refine view_eq_of_failed (Db.coverage id) closedIn_deleted (fun _ _ => seals_putServiceAreas)
      hrollback (fun q j s b s' hq hrun => Query.coverage_eq hrun hq) hc hstep he ?_
    rintro r p hp ⟨-, hok⟩
    rcases hfailed with hdead | ⟨r', err, hserved⟩
    · cases hp.symm.trans hdead
    · cases hp.symm.trans hserved
      cases hok
  · rcases replacements.told_of_ended hdb hc hended with h₀ | ⟨i, r, a, hserved, hok, hdeclares⟩
    · exact Or.inl h₀
    · rcases a with err | unknown
      · cases hok
      · exact Or.inr ⟨i, r, unknown, hserved, hdeclares⟩

/-- A listing that an account owns, and that serves one region. -/
def servingDb : Db where
  contractors := .ofList (fun _ => 1)
    [(SourceFacts.row ⟨1, "Acme".toList, "acme".toList, none, none⟩).attachClaimant 7 0]
    (by decide)
  areas := .ofList (fun _ => ⟨1, 2⟩) [()] (by decide)

/-- The owner declares one other region, and a radius. -/
def movesAway : AreasRequest := ⟨7, [.region "90210".toList, .radius 5000]⟩

theorem still_servingDb : Still 1 servingDb.contractors servingDb.areas :=
  ⟨fun _ => rfl, fun _ => rfl, _, rfl⟩

/-- A replacement that has its turn, and is served. -/
theorem putServiceAreas_atomic_movesAway :
    Atomic .plain 1 (InTurn .plain 1) (.initial servingDb) ∧
      ∃ c, Relation.ReflTransGen (InTurn .plain 1) (.initial servingDb) c ∧
        c.Served 0 movesAway (.ok []) := by
  refine ⟨putServiceAreas_atomic still_servingDb, ?_⟩
  have harrive : InTurn .plain 1 (.initial servingDb)
      ⟨servingDb, setProc 0 (.running movesAway ((areaRequests .plain 1).program 0 movesAway))
        fun _ => .idle⟩ := .arrive 0 movesAway rfl
  have hserved : (exec (areaRequests .plain 1) (List.replicate 6 (.run 0))
      ⟨servingDb, setProc 0 (.running movesAway ((areaRequests .plain 1).program 0 movesAway))
        fun _ => .idle⟩).any (fun c => decide (c.Served 0 movesAway (.ok []))) = true := by
    decide +kernel
  obtain ⟨c, hc, hserved⟩ := (Option.any_eq_true _ _).mp hserved
  obtain ⟨hrun, -⟩ := orderly_of_exec1 (i := 0) (fun _ hev => List.eq_of_mem_replicate hev) hc
    fun j hne => if_neg hne
  exact ⟨c, .head harrive hrun, of_decide_eq_true hserved⟩

/-- **A request that dies after its `DELETE`** leaves the listing without its regions. -/
theorem putServiceAreas_cutShort :
    ¬ Atomic .plain 1 (Step (areaRequests .plain 1) anyQuery) (.initial servingDb) := by
  rintro ⟨hfailed, -⟩
  obtain ⟨c, d, e, hc, hstep, he, hP⟩ := exists_of_exec_stepOf_exec (areaRequests .plain 1)
    [.arrive 0 movesAway, .run 0, .run 0, .run 0] 0 [.crash 0] (.initial servingDb)
    (fun c d e => (match e.procs 0 with | .dead => true | _ => false) &&
      (c.db.areas.slot ⟨1, 2⟩).committed.isSome && (d.db.areas.slot ⟨1, 2⟩).committed.isNone)
    (by decide +kernel)
  simp only [Bool.and_eq_true] at hP
  obtain ⟨⟨hdead, hbefore⟩, hafter⟩ := hP
  have hdead : e.procs 0 = .dead := by
    rcases hproc : e.procs 0 with _ | _ | _
    · rw [hproc] at hdead
      cases hdead
    · rw [hproc] at hdead
      cases hdead
    · rfl
  have hsame := hfailed c d e 0 hc hstep.step he hstep (Or.inl hdead)
  have hregion : 2 ∈ (d.db.coverage 1).regions := by
    rw [hsame]
    exact Option.isSome_iff_ne_none.mp hbefore
  exact hregion (Option.isNone_iff_eq_none.mp hafter)

end Marketplace.Registry
