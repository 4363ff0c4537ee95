import Marketplace.ReadCommitted.Fitting
import Marketplace.Registry.Footprint

/-!
# What a listing publishes of its place

What `republish` makes of a listing depends on four columns
(`Marketplace.Registry.Contractor.whereabouts`), and it is run by whoever writes one of them, in the
same transaction, over the version that the writer holds. Hence a condition on these columns that
`republish` brings about (`Marketplace.Registry.Republishes`) is one on every published listing, in
every interleaving, and the point that a geocoder gave last is never overwritten by an older one
(`Marketplace.Registry.Contractor.Kept`).
-/

namespace Marketplace.Registry

open ReadCommitted
open Search (Point)
open Directory (Region)

variable {atlas : Atlas}

/-! ### Listings -/

/-- **What decides where a listing appears**, and what it publishes of that. -/
def Contractor.whereabouts (c : Contractor) :
    Publication × AddressVisibility × Option Text × Option Point :=
  (c.toPublication, c.addressVisibility, c.postalCode, c.precisePoint)

/-- The listing, once what it publishes is computed again. -/
def Contractor.republished (atlas : Atlas) (id : Uuid) (c : Contractor) : Contractor :=
  (Change.location c.precisePoint (published atlas (c.locationInputs id))).apply c

/-- **The precise point is the one that a geocoder gave last.** -/
def Contractor.Kept (c : Contractor) : Prop := c.precisePoint = c.located.getLast?

/-- **A condition that `republish` brings about**, on the columns that it reads and writes. -/
structure Republishes (atlas : Atlas) (P : Contractor → Prop) : Prop where
  republished : ∀ id (c : Contractor), P (c.republished atlas id)
  congr : ∀ {c c' : Contractor}, c'.whereabouts = c.whereabouts → P c → P c'

/-- The listing appears where its columns say. -/
def Contractor.Placed (atlas : Atlas) (c : Contractor) : Prop :=
  c.toPublication = published atlas (c.locationInputs 0)

/-- **A listing that protects its address** appears at the centroid of a ZIP code, or nowhere. -/
def Contractor.Discreet (atlas : Atlas) (c : Contractor) : Prop :=
  c.addressVisibility = .protect → c.toPublication = .absent ∨
    ∃ code region, atlas.findZcta code = some region ∧ c.toPublication = .zipCentroid region

theorem published_of_exact {inputs : LocationInputs} {p : Point}
    (hvisible : inputs.addressVisibility = .publish) (hp : inputs.precisePoint = some p) :
    published atlas inputs = .exact p := by
  rw [published, hvisible, hp]

theorem published_of_region {inputs : LocationInputs} {region : Region}
    (h : ¬ (inputs.addressVisibility = .publish ∧ inputs.precisePoint.isSome = true))
    (hregion : inputs.postalCode.bind atlas.findZcta = some region) :
    published atlas inputs = .zipCentroid region := by
  rw [published]
  split
  · rename_i hvisible hp
    exact absurd ⟨hvisible, by rw [hp]; rfl⟩ h
  · rw [hregion]

theorem published_of_none {inputs : LocationInputs}
    (h : ¬ (inputs.addressVisibility = .publish ∧ inputs.precisePoint.isSome = true))
    (hregion : inputs.postalCode.bind atlas.findZcta = none) :
    published atlas inputs = .absent := by
  rw [published]
  split
  · rename_i hvisible hp
    exact absurd ⟨hvisible, by rw [hp]; rfl⟩ h
  · rw [hregion]

theorem republishes_placed : Republishes atlas (Contractor.Placed atlas) where
  republished _ _ := rfl
  congr := by
    intro c c' h hc
    simp only [Contractor.whereabouts, Prod.mk.injEq] at h
    obtain ⟨hpublication, hvisibility, hcode, hprecise⟩ := h
    rw [Contractor.Placed, hpublication, hc, published, published]
    simp only [Contractor.locationInputs, hvisibility, hcode, hprecise]

theorem republishes_discreet : Republishes atlas (Contractor.Discreet atlas) where
  republished id c := by
    intro (hprotected : c.addressVisibility = .protect)
    have hhidden : ¬ ((c.locationInputs id).addressVisibility = .publish ∧
        (c.locationInputs id).precisePoint.isSome = true) := by
      rintro ⟨hvisible, -⟩
      rw [Contractor.locationInputs, hprotected] at hvisible
      cases hvisible
    show published atlas (c.locationInputs id) = .absent ∨ ∃ code region,
      atlas.findZcta code = some region ∧ published atlas (c.locationInputs id) = .zipCentroid region
    cases hregion : (c.locationInputs id).postalCode.bind atlas.findZcta with
    | none => exact Or.inl (published_of_none hhidden hregion)
    | some region =>
      obtain ⟨code, -, hfound⟩ := Option.bind_eq_some_iff.mp hregion
      exact Or.inr ⟨code, region, hfound, published_of_region hhidden hregion⟩
  congr := by
    intro c c' h hc hprotected
    simp only [Contractor.whereabouts, Prod.mk.injEq] at h
    obtain ⟨hpublication, hvisibility, -, -⟩ := h
    rw [hpublication]
    exact hc (hvisibility ▸ hprotected)

/-! ### Updates -/

/-- The update leaves the columns that `republish` reads and writes. -/
def Change.leavesPlace : Change → Prop
  | .postalCode _ _ | .precisePoint _ | .location _ _ => False
  | .profile update => update.addressVisibility = none
  | .displayName _ | .photo _ | .serviceRadius _ | .verification _ _ _ => True

/-- The update does not write back a point that has been read. -/
def Change.leavesPoint : Change → Prop
  | .location _ _ => False
  | _ => True

theorem Change.leavesPoint_of_leavesPlace {change : Change} (h : change.leavesPlace) :
    change.leavesPoint := by
  cases change with
  | location => exact h.elim
  | displayName | postalCode | precisePoint | profile | photo | serviceRadius | verification =>
    trivial

theorem Change.whereabouts_apply {change : Change} {c : Contractor} (h : change.leavesPlace) :
    (change.apply c).whereabouts = c.whereabouts := by
  cases change with
  | postalCode | precisePoint | location => exact h.elim
  | profile update =>
    show (c.toPublication, update.addressVisibility.getD c.addressVisibility, c.postalCode,
      c.precisePoint) = c.whereabouts
    rw [show update.addressVisibility = none from h]
    rfl
  | displayName | photo | serviceRadius | verification => rfl

theorem Contractor.Kept.apply {c : Contractor} (h : c.Kept) {change : Change}
    (hchange : change.leavesPoint) : (change.apply c).Kept := by
  cases change with
  | location => exact hchange.elim
  | precisePoint p =>
    show some p = (c.located ++ [p]).getLast?
    rw [List.getLast?_concat]
  | displayName | postalCode | profile | photo | serviceRadius | verification => exact h

/-- The statement leaves the columns that `republish` reads and writes. -/
def ListingStatement.leavesPlace {β : Type} : ListingStatement β → Prop
  | .insert _ => False
  | .update _ change => change.leavesPlace
  | .attach _ _ _ => True

/-- The query leaves them too. -/
def Query.leavesPlace {β : Type} : Query β → Prop
  | .listing _ q => q.leavesPlace
  | _ => True

/-- The query does not write back a point that has been read. -/
def Query.leavesPoint {β : Type} : Query β → Prop
  | .listing _ (.update _ change) => change.leavesPoint
  | _ => True

/-- The query is not one on listings, and does not end the transaction. -/
def Query.leavesListings {β : Type} : Query β → Prop
  | .listing _ _ | .commit | .rollback => False
  | _ => True

section Effects

variable {β : Type} {q : Query β} {i : ℕ} {db db' : Db} {b : β} {P : Contractor → Prop}

theorem contractors_eq (h : q.run atlas i db = some (b, db')) (hq : q.leavesListings) :
    db'.contractors = db.contractors := by
  cases q with
  | listing | commit | rollback => exact hq.elim
  | license | addVersion | importRun | trade | area | job | claim | grantRole | recordCheck
  | record =>
    obtain ⟨⟨b', t⟩, ht, he⟩ := Option.map_eq_some_iff.mp h
    cases he
    rfl

/-- A statement on listings, in the open transaction, publishes nothing. -/
theorem committed_listing {q : ListingStatement β}
    (h : (Query.listing .tx q).run atlas i db = some (b, db')) (k : Uuid) :
    (db'.contractors.slot k).committed = (db.contractors.slot k).committed := by
  obtain ⟨⟨b', t⟩, ht, he⟩ := Option.map_eq_some_iff.mp h
  cases he
  exact (ListingStatement.written ht).committed (fun _ _ _ _ hA => hA.1) k

/-- No listing is deleted. -/
theorem lasts_written {o : Option Contractor} {c' : Contractor} :
    Lasts (fun _ => ()) o (some c') :=
  fun _ _ => ⟨c', rfl, rfl⟩

theorem kept_of_writes {k : Uuid} {o : Option Contractor} {c' : Contractor}
    (h : q.writesListing k o c') (hq : q.leavesPoint) (ho : ∀ c, o = some c → c.Kept) : c'.Kept := by
  cases q with
  | listing m q =>
    cases q with
    | insert facts =>
      obtain ⟨-, -, rfl⟩ := h
      rfl
    | update id change =>
      obtain ⟨-, -, c, hc, rfl⟩ := h
      exact (ho c hc).apply hq
    | attach id userId now =>
      obtain ⟨-, c, hc, -, rfl⟩ := h
      exact ho c hc
  | license | addVersion | importRun | trade | area | job | claim | grantRole | recordCheck
  | record | commit | rollback => exact h.elim

theorem whereabouts_of_writes {k : Uuid} {o : Option Contractor} {c' : Contractor}
    (h : q.writesListing k o c') (hq : q.leavesPlace) :
    ∃ c, o = some c ∧ c'.whereabouts = c.whereabouts := by
  cases q with
  | listing m q =>
    cases q with
    | insert facts => exact hq.elim
    | update id change =>
      obtain ⟨-, -, c, hc, rfl⟩ := h
      exact ⟨c, hc, Change.whereabouts_apply hq⟩
    | attach id userId now =>
      obtain ⟨-, c, hc, -, rfl⟩ := h
      exact ⟨c, hc, rfl⟩
  | license | addVersion | importRun | trade | area | job | claim | grantRole | recordCheck
  | record | commit | rollback => exact h.elim

theorem Query.leavesPoint_of_leavesPlace (h : q.leavesPlace) : q.leavesPoint := by
  cases q with
  | listing m q =>
    cases q with
    | update id change => exact Change.leavesPoint_of_leavesPlace h
    | insert | attach => trivial
  | license | addVersion | importRun | trade | area | job | claim | grantRole | recordCheck
  | record | commit | rollback => trivial

end Effects

/-! ### The contract -/

/-- **The invariant**: listings stay, every version of one has the point that was found last, and
the published ones satisfy the condition. -/
structure PlacesInv (P : Contractor → Prop) (s : Db) : Prop where
  lasts : s.contractors.Ordered (Lasts fun _ => ())
  kept : s.contractors.Holds fun _ c => c.Kept
  fits : s.contractors.Fits fun _ c => P c

/-- What a step may do. -/
structure PlacesGuar (j : ℕ) (s s' : Db) : Prop where
  moves : Table.Moves j s.contractors s'.contractors
  grown : Table.Grown (Lasts fun _ => ()) s.contractors s'.contractors

variable {P : Contractor → Prop} {i : ℕ} {id : Uuid} {φ : Contractor → Prop}

theorem places_step {β : Type} {q : Query β} {s s' : Db} {b : β} (hs : PlacesInv P s)
    (h : q.run atlas i s = some (b, s'))
    (hkept : ∀ k c', q.writesListing k (s.contractors.row i k) c' → c'.Kept)
    (hfits : s'.contractors.Fits fun _ c => P c) : PlacesInv P s' ∧ PlacesGuar i s s' := by
  have heffect := Query.contractors_effect h
  obtain ⟨hlasts, hgrown⟩ := heffect.ordered Lasts.refl Lasts.trans hs.lasts
    fun _ _ _ => lasts_written
  exact ⟨⟨hlasts, heffect.holds hs.kept hkept, hfits⟩, ⟨heffect.moves, hgrown⟩⟩

/-- **The contract.** -/
def placesContract (atlas : Atlas) (P : Contractor → Prop) : Contract (registry atlas) anyQuery where
  inv := PlacesInv P
  guar := PlacesGuar
  inv_tick _ hs := ⟨hs.lasts, hs.kept, hs.fits⟩
  rollback := by
    intro i s s' hs _ hq
    have hrun : Query.rollback.run atlas i s = some ((), s') := hq
    have hs' : s.rollback i = s' := congrArg Prod.snd (Option.some.inj hrun)
    refine places_step hs hrun (fun _ _ h => False.elim h) ?_
    rw [← hs']
    exact hs.fits.rollback

/-! ### What a process knows -/

/-- What the process is about to publish satisfies the condition, but for the listings of `D`. -/
def tidy (D : Uuid → Prop) : Assertion (placesContract atlas P) i where
  holds s := s.contractors.Settled (fun _ c => P c) D i
  stable hne _ _ hg h := h.of_other hg.moves hne
  tick _ _ h := h

/-- The process is at work on no listing. -/
abbrev idle : Assertion (placesContract atlas P) i := tidy fun _ => False

/-- The process holds a listing, in a version of which `φ` is known. -/
def holding (id : Uuid) (φ : Contractor → Prop) : Assertion (placesContract atlas P) i where
  holds s := ∃ c, s.contractors.Draft i id c ∧ φ c
  stable := by
    rintro j s s' hne - - hg ⟨c, hdraft, hφ⟩
    exact ⟨c, (Table.draft_iff_of_other hg.moves hne).mpr hdraft, hφ⟩
  tick _ _ h := h

/-- The process is at work on one listing. -/
abbrev moving (id : Uuid) (φ : Contractor → Prop) : Assertion (placesContract atlas P) i :=
  (tidy (· = id)).and (holding id φ)

/-- The process has seen the listing. -/
def seen (id : Uuid) : Assertion (placesContract atlas P) i where
  holds s := ∃ c, s.contractors.row i id = some c
  stable := by
    rintro j s s' hne - - hg ⟨c, hrow⟩
    obtain ⟨c', hrow', -⟩ := Table.le_row_of_other hg.moves hg.grown Lasts.refl hne id c hrow
    exact ⟨c', hrow'⟩
  tick _ _ h := h

section Keeps

variable {β : Type} {q : Query β} {s s' : Db} {b : β}

/-- **A query that leaves where listings are**, of a process that is at work on none. -/
theorem idle_keeps (hP : Republishes atlas P) (hq : q.leavesPlace) :
    (placesContract atlas P).Keeps (idle : Assertion (placesContract atlas P) i) q := by
  intro s b s' hs htidy _ hrun
  have heffect := Query.contractors_effect hrun
  obtain ⟨hfits, htidy'⟩ := heffect.fits hs.fits htidy fun k c' hA hrow => by
    obtain ⟨c, hc, hsame⟩ := whereabouts_of_writes hA hq
    exact hP.congr hsame (hrow c hc)
  obtain ⟨hs', hg⟩ := places_step hs hrun (fun k c' hA => kept_of_writes hA
    (Query.leavesPoint_of_leavesPlace hq) fun c hc => hs.kept.row hc) hfits
  exact ⟨hs', hg, htidy'⟩

/-- A query that is not one on listings keeps what is known of them. -/
theorem moving_keeps (hq : q.leavesListings) :
    (placesContract atlas P).Keeps (moving id φ : Assertion (placesContract atlas P) i) q := by
  intro s b s' hs h _ hrun
  have hsame := contractors_eq hrun hq
  have hwrites : ∀ k c', ¬ q.writesListing k (s.contractors.row i k) c' := by
    intro k c' hA
    cases q with
    | listing => exact hq
    | license | addVersion | importRun | trade | area | job | claim | grantRole | recordCheck
    | record | commit | rollback => exact hA
  obtain ⟨hs', hg⟩ := places_step hs hrun (fun k c' hA => absurd hA (hwrites k c')) (hsame ▸ hs.fits)
  refine ⟨hs', hg, ?_, ?_⟩
  · show s'.contractors.Settled _ _ _
    rw [hsame]
    exact h.1
  · obtain ⟨c, hdraft, hφ⟩ := h.2
    exact ⟨c, by rw [hsame]; exact hdraft, hφ⟩

/-- A statement on a listing, in the open transaction, keeps the contract. -/
theorem place_step {q : ListingStatement β} (hs : PlacesInv P s)
    (h : (Query.listing .tx q).run atlas i s = some (b, s'))
    (hkept : ∀ k c', q.writes k (s.contractors.row i k) c' → c'.Kept) :
    PlacesInv P s' ∧ PlacesGuar i s s' := by
  refine places_step hs h hkept fun k c hc => ?_
  rw [committed_listing h] at hc
  exact hs.fits k c hc

end Keeps

/-! ### Publishing -/

/-- **What an update of a listing that is there does**: it is held in the version that was
written. -/
theorem update_cases {m : Mode} {s s' : Db} {change : Change} {hit : Bool}
    (h : (Query.listing m (.update id change)).run atlas i s = some (some hit, s')) :
    (hit = true ∧ ∃ c, s.contractors.row i id = some c ∧ s' = { s with
        contractors :=
          s.contractors.put id ((s.contractors.slot id).put m i (change.apply c)) }) ∨
      hit = false ∧ s' = s ∧ s.contractors.row i id = none := by
  obtain ⟨⟨b, t⟩, ht, he⟩ := Option.map_eq_some_iff.mp h
  cases he
  obtain ⟨-, hb, hput⟩ := Table.modify_cases ht
  cases hrow : s.contractors.row i id with
  | none =>
    rw [hrow] at hb hput
    obtain ⟨-, rfl⟩ | ⟨c', hc', -⟩ := hput
    · cases hb
      exact Or.inr ⟨rfl, rfl, rfl⟩
    · cases hc'
  | some c =>
    rw [hrow] at hb hput
    rw [Table.checking, if_pos rfl] at hb hput
    by_cases hchecks : change.checks = true
    · rw [if_pos hchecks] at hb hput
      obtain ⟨hnone, -⟩ | ⟨c', hc', rfl⟩ := hput
      · cases hnone
      · cases hb
        cases hc'
        exact Or.inl ⟨rfl, c, rfl, rfl⟩
    · rw [if_neg hchecks] at hb
      cases hb

/-- **An update takes a listing up** that the process has seen. -/
theorem safe_update_open {change : Change} (hchange : change.leavesPoint) :
    Safe (Assertion.onOk (fun _ => moving id fun _ => True) fun _ => .any)
      (updateListing .tx id change).run
      (idle.and (seen id) : Assertion (placesContract atlas P) i) := by
  refine Safe.query_andThen (Assertion.onSome fun _ => moving id fun _ => True)
    (fun s b s' hs h _ hq => ?_) fun b => ?_
  · have hrun : (Query.listing .tx (.update id change)).run atlas i s = some (b, s') := hq
    obtain ⟨hs', hg⟩ := place_step hs hrun fun k c' hA =>
      kept_of_writes (q := .listing .tx (.update id change)) hA hchange fun c hc => hs.kept.row hc
    refine ⟨hs', hg, ?_⟩
    cases b with
    | none => trivial
    | some hit =>
      obtain ⟨-, c, -, rfl⟩ | ⟨-, -, hnone⟩ := update_cases hrun
      · exact ⟨Table.Settled.put_open h.1, _, Table.draft_put, trivial⟩
      · obtain ⟨c, hrow⟩ := h.2
        rw [hnone] at hrow
        cases hrow
  · cases b with
    | none => exact fun s _ _ => trivial
    | some hit => exact fun s _ h => h

/-- **`republish` leaves the listing where its columns say**, and with the point it had. -/
theorem safe_republish (hP : Republishes atlas P) :
    Safe (Assertion.onOk (fun _ => idle) fun _ => .any) (republish atlas id).run
      (moving id (fun _ => True) : Assertion (placesContract atlas P) i) := by
  refine Safe.look_andThen (fun o => o.elim (.fact False) fun inputs =>
    moving id fun c => c.locationInputs id = inputs) (fun s _ h => ?_) fun o => ?_
  · obtain ⟨c, hdraft, -⟩ := h.2
    rw [hdraft.row]
    exact ⟨h.1, c, hdraft, rfl⟩
  cases o with
  | none => exact Safe.of_false fun s h => h
  | some inputs =>
    refine Safe.andThen (fun _ => idle) ?_ fun _ s _ h => h
    refine Safe.query_andThen (Assertion.onSome fun _ => idle) (fun s b s' hs h _ hq => ?_)
      fun b => ?_
    · have hrun : (Query.listing .tx (.update id
        (.location inputs.precisePoint (published atlas inputs)))).run atlas i s = some (b, s') := hq
      obtain ⟨c, hdraft, rfl⟩ := h.2
      have hrow := hdraft.row
      obtain ⟨hs', hg⟩ := place_step hs hrun fun k c' hA => by
        obtain ⟨rfl, -, c₀, hc₀, rfl⟩ := hA
        rw [hrow] at hc₀
        cases hc₀
        have hkept : c.Kept := hs.kept.row hrow
        exact hkept
      refine ⟨hs', hg, ?_⟩
      cases b with
      | none => trivial
      | some hit =>
        obtain ⟨-, c₀, hc₀, rfl⟩ | ⟨-, -, hnone⟩ := update_cases hrun
        · rw [hrow] at hc₀
          cases hc₀
          exact h.1.put_done (hP.republished id c)
        · rw [hrow] at hnone
          cases hnone
    · cases b with
      | none => exact fun s _ _ => trivial
      | some hit => exact fun s _ h => h

/-! ### Imports -/

theorem Query.leavesPlace_of_leavesListings {β : Type} {q : Query β} (h : q.leavesListings) :
    q.leavesPlace := by
  cases q with
  | listing => exact h.elim
  | license | addVersion | importRun | trade | area | job | claim | grantRole | recordCheck
  | record | commit | rollback => trivial

/-- What a process has seen of the listings, it sees after a statement of its own on them. -/
theorem seen_of_listing {β : Type} {q : ListingStatement β} {m : Mode} {s s' : Db} {b : β}
    (h : (Query.listing m q).run atlas i s = some (b, s'))
    (hseen : ∃ c, s.contractors.row i id = some c) : ∃ c, s'.contractors.row i id = some c := by
  obtain ⟨⟨b', t⟩, ht, he⟩ := Option.map_eq_some_iff.mp h
  cases he
  obtain ⟨c, hrow⟩ := hseen
  obtain ⟨c', hrow', -⟩ := (ListingStatement.written ht).le_row Lasts.refl
    (fun _ _ _ _ => lasts_written) id c hrow
  exact ⟨c', hrow'⟩

/-- A listing that was looked for by its licence is there. -/
theorem row_of_listingOf {s : Db} {j : ℕ} {l : Uuid} {p : Uuid × Contractor}
    (h : s.listingOf j l = some p) :
    s.contractors.row j p.1 = some p.2 ∧ p.2.licenseRecordId = some l := by
  obtain ⟨k, hk, hp⟩ := Option.bind_eq_some_iff.mp h
  obtain ⟨c, hc, rfl⟩ := Option.map_eq_some_iff.mp hp
  obtain ⟨c', hc', hl⟩ := Table.mem_scan.mp (List.mem_of_head? hk)
  rw [hc] at hc'
  cases hc'
  exact ⟨hc, of_decide_eq_true hl⟩

/-- **What is known once the listing of a licence is written**: the process is at work on it, if it
has to be published again. -/
def changed (upserted : UpsertResult) : Assertion (placesContract atlas P) i :=
  if upserted.created || upserted.locationChanged then moving upserted.id fun _ => True else idle

theorem changed_keeps (hP : Republishes atlas P) {upserted : UpsertResult} {β : Type} {q : Query β}
    (hq : q.leavesListings) :
    (placesContract atlas P).Keeps (changed upserted : Assertion (placesContract atlas P) i) q := by
  rw [changed]
  split
  · exact moving_keeps hq
  · exact idle_keeps hP (Query.leavesPlace_of_leavesListings hq)

/-- A listing that is inserted is taken up. -/
theorem insert_step {facts : SourceFacts} {s s' : Db} {b : Option Uuid} (hs : PlacesInv P s)
    (hidle : (idle : Assertion (placesContract atlas P) i).holds s)
    (h : (Query.listing .tx (.insert facts)).run atlas i s = some (b, s')) :
    PlacesInv P s' ∧ PlacesGuar i s s' ∧ (Assertion.onSome (fun id => moving id fun _ => True) b :
      Assertion (placesContract atlas P) i).holds s' := by
  obtain ⟨hs', hg⟩ := place_step hs h fun k c' hA => by
    obtain ⟨-, -, rfl⟩ := hA
    rfl
  refine ⟨hs', hg, ?_⟩
  cases b with
  | none => trivial
  | some id =>
    obtain ⟨⟨b', t⟩, ht, he⟩ := Option.map_eq_some_iff.mp h
    cases he
    rw [ListingStatement.run] at ht
    split at ht
    · obtain ⟨-, ⟨hnone, -⟩ | ⟨hid, rfl, -⟩⟩ := Table.insertFresh_cases ht
      · cases hnone
      · cases hid
        have hput := Table.Settled.put_open (k := s.contractors.fresh) (r := facts.row) hidle
        rw [Table.slot_fresh] at hput
        exact ⟨hput, _, Table.draft_put, trivial⟩
    · cases ht

theorem safe_upsertFromLicense (hP : Republishes atlas P) {facts : SourceFacts} :
    Safe (Assertion.onOk changed fun _ => .any) (upsertFromLicense facts).run
      (idle : Assertion (placesContract atlas P) i) := by
  refine Safe.look_andThen (fun o => o.elim idle fun p => idle.and (seen p.1)) (fun s _ h => ?_)
    fun o => ?_
  · cases hfound : s.listingOf i facts.licenseRecordId with
    | none => exact h
    | some p => exact ⟨h, p.2, (row_of_listingOf hfound).1⟩
  cases o with
  | none =>
    refine Safe.query_andThen (Assertion.onSome fun id => moving id fun _ => True)
      (fun s b s' hs h _ hq => ?_) fun inserted => ?_
    · have hrun : (Query.listing .tx (.insert facts)).run atlas i s = some (b, s') := hq
      exact insert_step hs h hrun
    cases inserted with
    | none => exact fun s _ _ => trivial
    | some id => exact fun s _ h => h
  | some p =>
    have hname : (refreshName p.1 p.2.2 facts.displayName).run.Each fun {_} q =>
        (placesContract atlas P).Keeps (idle.and (seen p.1) : Assertion (placesContract atlas P) i)
          q := by
      rw [refreshName]
      split
      · trivial
      · refine each_updateListing (Contract.Keeps.and (idle_keeps hP ?_) fun s b s' hq hseen => ?_)
        · trivial
        · have hrun : (Query.listing .tx (.update p.1 (.displayName facts.displayName))).run atlas i
            s = some (b, s') := hq
          exact seen_of_listing hrun hseen
    refine Safe.keep_andThen hname (fun _ _ _ _ => trivial) fun _ => ?_
    show Safe _ (if p.2.1 = facts.postalCode then _ else _ : Registering UpsertResult).run _
    split
    · exact fun s _ h => h.1
    · exact Safe.andThen _ (safe_update_open trivial) fun _ s _ h => h

theorem safe_place (hP : Republishes atlas P) {upserted : UpsertResult} :
    Safe (Assertion.onOk (fun _ => idle) fun _ => .any) (place atlas upserted).run
      (changed upserted : Assertion (placesContract atlas P) i) := by
  rw [place, changed]
  split
  · refine Safe.andThen _ (safe_republish hP) fun _ => ?_
    refine (Safe.keep (each_relocateAfterAddressChange fun _ _ _ => idle_keeps hP trivial)).conseq
      (fun _ _ h => h) fun a s _ h => ?_
    cases a with
    | ok _ => exact h
    | error e => trivial
  · exact fun s _ h => h

/-- **What follows from a licence that has changed leaves no listing unpublished.** -/
theorem safe_project (hP : Republishes atlas P) {record : LicenseRecord} :
    Safe (Assertion.onOk (fun _ => idle) fun _ => .any) (project atlas id record).run
      (idle : Assertion (placesContract atlas P) i) := by
  refine Safe.andThen _ (safe_upsertFromLicense hP) fun upserted => ?_
  refine Safe.keep_andThen (each_replaceCslbTrades
    ⟨fun _ _ => changed_keeps hP trivial, fun _ => changed_keeps hP trivial⟩)
    (fun _ _ _ _ => trivial) fun _ => ?_
  refine Safe.andThen _ (safe_place hP) fun _ => ?_
  exact Safe.keep_andThen (each_recompute ⟨fun _ _ _ _ => idle_keeps hP trivial⟩)
    (fun _ _ _ _ => trivial) fun _ s _ h => h

end Marketplace.Registry
