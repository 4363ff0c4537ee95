import Marketplace.Registry.Ownership
import Marketplace.Registry.Contents
import Marketplace.Registry.ServiceAreas
import Marketplace.ReadCommitted.Authorship

/-!
# Who writes what of a listing

A row of `contractors` is written by imports, by the geocoding worker, by the nightly re-check, by
those who decide claims, and by its owner, all at once. It is divided among them by its columns
(`Marketplace.Registry.Facet`): what the register says, where the listing is, its badge, who owns
it, and what its owner says.

What a request may write is read off the request (`Marketplace.Registry.Request.Reaches`), and so
is what else has to be so (`Marketplace.Registry.Request.Entitled`): the owner's columns of a
listing are for whoever owns it, and a claim is decided for the listing that it is on. Both are found
out by looking, some statements before anything is written, which is enough since owners stay
(`Marketplace.Registry.Held`) and claims stay on their listings (`Marketplace.Registry.Final`).
-/

namespace Marketplace.Registry

open ReadCommitted
open Search (Point)

variable {atlas : Atlas}

/-! ### The columns of a listing -/

/-- The columns of a listing, in groups that are written together. -/
inductive Facet
  /-- The licence that the listing is of, and its slug. -/
  | licence
  /-- The name that it shows. -/
  | name
  /-- The ZIP code on the licence, and its region. -/
  | postal
  /-- Where it is, exactly and as it is published. -/
  | place
  /-- Who owns it, and since when. -/
  | owner
  /-- Whether it may be written to. -/
  | contact
  /-- What its owner says. -/
  | profile
  /-- The photograph. -/
  | photo
  /-- How far it serves. -/
  | radius
  /-- The badge. -/
  | badge
  deriving DecidableEq

namespace Facet

/-- What a group of columns holds. -/
def Value : Facet → Type
  | licence => Option (Option Uuid × Text)
  | name => Option Text
  | postal => Option (Option Text × Option Uuid)
  | place => Publication × Option Point × List Point
  | owner => Option Uuid × Option Instant
  | contact => Bool
  | profile => (Option Text × Option Text × Option Text) × AddressVisibility × Option OwnerAddress ×
      Option Text × Option Text
  | photo => Option ProfilePhoto
  | radius => ℕ
  | badge => Bool × Option Instant × Option Text × Option ℕ

/-- What a group of columns says. -/
def read : (a : Facet) → Contractor → a.Value
  | licence, c => some (c.licenseRecordId, c.slug)
  | name, c => some c.displayName
  | postal, c => some (c.postalCode, c.regionId)
  | place, c => (c.toPublication, c.precisePoint, c.located)
  | owner, c => (c.claimedByUserId, c.claimedAt)
  | contact, c => c.acceptsDm
  | profile, c => ((c.bio, c.websiteUrl, c.publicPhone), c.addressVisibility, c.ownerAddress,
      c.googleReviewUrl, c.yelpUrl)
  | photo, c => c.photo
  | radius, c => c.serviceRadiusM
  | badge, c => (c.verified, c.verifiedAt, c.verificationReason, c.checkedOn)

/-- What it says of a listing that there is not: what it says of one that is new, as far as the
register does not say it. -/
def blank : (a : Facet) → a.Value
  | licence | name | postal => none
  | place => (.absent, none, [])
  | owner => (none, none)
  | contact => false
  | profile => ((none, none, none), .publish, none, none, none)
  | photo => none
  | radius => Directory.defaultServiceRadiusM
  | badge => (false, none, none, none)

/-- What it says of a listing that there may be. -/
def get (a : Facet) (o : Option Contractor) : a.Value := o.elim a.blank a.read

/-- What an import inserts. -/
def inserted : Facet → Bool
  | licence | name | postal => true
  | _ => false

/-- What an import writes. -/
def imported : Facet → Bool
  | licence | name | postal | place | badge => true
  | _ => false

/-- What an owner's edit of the profile writes. -/
def edited : Facet → Bool
  | profile | contact | place => true
  | _ => false

/-- What a claim that is approved writes. -/
def claimed : Facet → Bool
  | owner | contact | badge => true
  | _ => false

end Facet

/-- The update writes the columns. -/
def Change.writes : Change → Facet → Bool
  | .displayName _, .name | .postalCode _ _, .postal | .precisePoint _, .place
  | .location _ _, .place | .profile _, .profile | .profile _, .contact | .photo _, .photo
  | .serviceRadius _, .radius | .verification _ _ _, .badge => true
  | _, _ => false

/-- An update leaves the columns that it does not write. -/
theorem Change.read_apply {change : Change} {a : Facet} (h : change.writes a = false)
    (c : Contractor) : a.read (change.apply c) = a.read c := by
  cases change <;> cases a <;> first | rfl | exact absurd h (by simp [Change.writes])

/-- A new listing says nothing but what the register does. -/
theorem Facet.read_row {a : Facet} (h : a.inserted = false) (facts : SourceFacts) :
    a.read facts.row = a.blank := by
  cases a <;> first | rfl | exact absurd h (by simp [Facet.inserted])

/-- Giving a listing an owner leaves the columns that it does not write. -/
theorem Facet.read_attachClaimant {a : Facet} (h : a ≠ .owner ∧ a ≠ .contact) {userId : Uuid}
    {now : Instant} (c : Contractor) : a.read (c.attachClaimant userId now) = a.read c := by
  cases a <;> first | rfl | exact absurd rfl h.1 | exact absurd rfl h.2

/-! ### Requests -/

/-- **What a request may write of listing `k`.** -/
def Request.Reaches (a : Facet) (k : Uuid) : Request → Prop
  | .importFile options => options.dryRun = false ∧ a.imported = true
  | .runOnce _ => a = .place
  | .recomputeAll _ _ => a = .badge
  | .openClaim id _ _ _ => id = k ∧ a.claimed = true
  | .decideClaim _ _ _ _ => a.claimed = true
  | .updateProfile _ id _ => id = k ∧ a.edited = true
  | .setPhoto _ id _ _ | .removePhoto _ id => id = k ∧ a = .photo
  | .putServiceAreas _ id _ => id = k ∧ a = .radius
  | .rederive | .withdrawClaim _ _ | .reportTrade _ _ _ => False

/-- A claim is on a listing. -/
def Db.ClaimOn (id k : Uuid) (db : Db) : Prop :=
  ∃ claim, (db.claims.slot id).committed = some claim ∧ claim.contractorId = k

/-- **What has to be so for it**: what an owner writes is written by the owner, and a claim that is
decided is on the listing. -/
def Request.Entitled (k : Uuid) (db : Db) : Request → Prop
  | .updateProfile caller _ _ | .setPhoto caller _ _ _ | .removePhoto caller _
  | .putServiceAreas caller _ _ => db.Owned k caller
  | .decideClaim id _ _ _ => db.ClaimOn id k
  | _ => True

/-- A query that leaves columns of listing `k` as they are, whatever they are. -/
def Query.Spares (a : Facet) (k : Uuid) {β : Type} (q : Query β) : Prop :=
  ∀ o c', q.writesListing k o c' → a.get (some c') = a.get o

section Spares

variable {a : Facet} {k id : Uuid} {m : Mode}

theorem spares_update {change : Change} (h : id = k → change.writes a = false) :
    (Query.listing m (.update id change)).Spares a k := by
  rintro o c' ⟨rfl, -, c, rfl, rfl⟩
  exact Change.read_apply (h rfl) c

theorem spares_insert {facts : SourceFacts} (h : a.inserted = false) :
    (Query.listing m (.insert facts)).Spares a k := by
  rintro o c' ⟨rfl, -, rfl⟩
  exact Facet.read_row h facts

theorem spares_attach {userId : Uuid} {now : Instant} (h : id = k → a ≠ .owner ∧ a ≠ .contact) :
    (Query.listing m (.attach id userId now)).Spares a k := by
  rintro o c' ⟨rfl, c, rfl, -, rfl⟩
  exact Facet.read_attachClaimant (h rfl) c

/-- The statements of the other tables spare every listing. -/
theorem spares_other {β : Type} {q : Query β} (h : ∀ k o c', ¬ q.writesListing k o c') :
    q.Spares a k :=
  fun o c' hwrites => absurd hwrites (h k o c')

end Spares

section Allows

variable {a : Facet} {k id : Uuid}

theorem spares_commit : Query.commit.Spares a k := spares_other fun _ _ _ h => h

theorem spares_rollback : Query.rollback.Spares a k := spares_other fun _ _ _ h => h

theorem allowsLocation_spares (h : a ≠ .place) : AllowsLocation fun {_} q => q.Spares a k where
  location _ _ _ := spares_update fun _ => by cases a <;> first | rfl | exact absurd rfl h

theorem allowsBadge_spares (h : a ≠ .badge) : AllowsBadge fun {_} q => q.Spares a k where
  verification _ _ _ _ := spares_update fun _ => by cases a <;> first | rfl | exact absurd rfl h

theorem allowsPass_spares (h : a ≠ .place) : AllowsPass fun {_} q => q.Spares a k where
  toAllowsLocation := allowsLocation_spares h
  commit := spares_commit
  rollback := spares_rollback
  job _ _ := spares_other fun _ _ _ h => h
  precisePoint _ _ := spares_update fun _ => by cases a <;> first | rfl | exact absurd rfl h

theorem allowsImport_spares (h : a.imported = false) : AllowsImport fun {_} q => q.Spares a k := by
  have hplace : a ≠ .place := by
    rintro rfl
    cases h
  have hbadge : a ≠ .badge := by
    rintro rfl
    cases h
  have hinserted : a.inserted = false := by cases a <;> first | rfl | cases h
  exact
    { toAllowsLocation := allowsLocation_spares hplace
      toAllowsBadge := allowsBadge_spares hbadge
      addTrade := fun _ _ => spares_other fun _ _ _ h => h
      dropTrade := fun _ => spares_other fun _ _ _ h => h
      insert := fun _ => spares_insert hinserted
      displayName := fun _ _ => spares_update fun _ => by cases a <;> first | rfl | cases h
      postalCode := fun _ _ _ => spares_update fun _ => by cases a <;> first | rfl | cases h
      enqueue := fun _ _ _ => spares_other fun _ _ _ h => h
      license := fun _ => spares_other fun _ _ _ h => h
      addVersion := fun _ _ _ => spares_other fun _ _ _ h => h
      commit := spares_commit
      rollback := spares_rollback
      importRun := fun _ => spares_other fun _ _ _ h => h }

theorem allowsDecision_spares (h : id = k → a.claimed = false) :
    AllowsDecisionOn (fun {_} q => q.Spares a k) id where
  verification _ _ _ := spares_update fun hid => by
    have hclaimed := h hid
    cases a <;> first | rfl | cases hclaimed
  attach _ _ := spares_attach fun hid => by
    have hclaimed := h hid
    constructor <;> rintro rfl <;> cases hclaimed
  decide _ _ _ _ _ := spares_other fun _ _ _ h => h
  grantRole _ _ _ := spares_other fun _ _ _ h => h
  recordCheck _ := spares_other fun _ _ _ h => h
  record _ := spares_other fun _ _ _ h => h

/-- What the owner of one listing edits is not of another one, and not the other columns. -/
theorem spares_editProfile {fault later : Option ℕ} {body : UpdateProfileRequest}
    (h : id = k → a.edited = false) :
    (match body.update with
      | .ok update => do
        inTransaction fault (profileRow atlas id update)
        Registering.failAt later (rereadListing id)
      | .error e => throw e : Registering Contractor).run.Each fun {_} q => q.Spares a k := by
  refine each_editProfile (fun _ _ => spares_update fun hid => ?_)
    (fun _ _ _ => spares_other fun _ _ _ h => h) spares_commit spares_rollback
    fun update => spares_update fun hid => ?_
  · have hedited := h hid
    cases a <;> first | rfl | cases hedited
  · have hedited := h hid
    cases a <;> first | rfl | cases hedited

theorem spares_replaceAreas {declared : DeclaredAreas} (h : id = k → a ≠ .radius) :
    (replaceAreas atlas id declared).run.Each fun {_} q => q.Spares a k := by
  refine Action.each_andThen (Action.each_transaction spares_commit spares_rollback fun old => ?_)
    fun _ => Action.each_andThen (each_updateListing (spares_update fun hid => ?_)) fun _ =>
      each_addAreas fun _ => spares_other fun _ _ _ h => h
  · exact Action.each_ofProg (Prog.each_countEach fun key =>
      ⟨spares_other fun _ _ _ h => h, fun _ => trivial⟩)
  · have hradius := h hid
    cases a <;> first | rfl | exact absurd rfl hradius

theorem spares_photo {m : Mode} (h : id = k → a ≠ .photo) (photo : Option ProfilePhoto) :
    (Query.listing m (.update id (.photo photo))).Spares a k := by
  refine spares_update fun hid => ?_
  have hphoto := h hid
  cases a <;> first | rfl | exact absurd rfl hphoto

end Allows

/-! ### What is found out before anything is written -/

/-- The request is one of those that are for the owner of a listing. -/
def Request.isOwners : Request → Bool
  | .updateProfile _ _ _ | .setPhoto _ _ _ _ | .removePhoto _ _ | .putServiceAreas _ _ _ => true
  | _ => false

/-- The request decides a claim. -/
def Request.isDecision : Request → Bool
  | .decideClaim _ _ _ _ => true
  | _ => false

/-- **What a request finds out is so for everybody**: who gives nothing away sees the owners that
are published, and who opens no claim sees the listings that the published claims are on. -/
def FindsOut (i : ℕ) (call : Call) (db : Db) : Prop :=
  (call.request.isOwners = true → ∀ k u, db.Owns i k u → db.Owned k u) ∧
    (call.request.isDecision = true →
      ∀ id claim, db.claims.row i id = some claim → db.ClaimOn id claim.contractorId)

/-- What a call may write, and that it may. -/
def Call.May (a : Facet) (k : Uuid) (call : Call) (db : Db) : Prop :=
  call.request.Reaches a k ∧ call.request.Entitled k db

section Guarded

variable {a : Facet} {k : Uuid} {i : ℕ} {α : Type}

/-- A program that issues nothing but what spares the columns. -/
abbrev Sparing (a : Facet) (k : Uuid) (p : Registering α) : Prop :=
  p.run.Each fun {_} q => q.Spares a k

/-- Only the owner goes on. -/
theorem guarded_claimedBy {call : Call} {caller id : Uuid} {p : Registering α} {e : AppError}
    (howners : call.request.isOwners = true)
    (hmay : ∀ s : Db, id = k → s.Owned k caller → call.May a k s ∨ Sparing a k p)
    (hne : id ≠ k → Sparing a k p) :
    (do let owned ← claimedBy caller
        if owned = some id then p else throw e : Registering α).run.Guarded i (FindsOut i call)
      (call.May a k) fun {_} q => q.Spares a k := by
  refine Action.guarded_look fun s owned hs howner => ?_
  split
  · rename_i howned
    by_cases hid : id = k
    · obtain ⟨c, hrow, hc⟩ := Table.mem_scan.mp (List.mem_of_head? (howner.trans howned))
      have hpublished : s.Owned k caller :=
        hs.1 howners k caller (hid ▸ ⟨c, hrow, of_decide_eq_true hc⟩)
      exact (hmay s hid hpublished).symm.imp_left Prog.guarded_of_each
    · exact Or.inl (Prog.guarded_of_each (hne hid))
  · exact Or.inl trivial

/-- What the handler of a request answers with takes nothing away. -/
theorem Guarded.answer {J A : Db → Prop} {φ : {β : Type} → Query β → Prop} {p : Registering α}
    {f : α → Response} (h : p.run.Guarded i J A φ) :
    (p >>= fun a => pure (f a)).run.Guarded i J A φ :=
  Prog.Guarded.bind h fun a => by cases a <;> trivial

/-- Claims are decided on the listings that they are on. -/
theorem guarded_decideClaim {call : Call} {id : Uuid} {approve : Bool} {adminId : Uuid}
    {note : Option Text} (hcall : call.request = .decideClaim id approve adminId note) :
    (decideClaim atlas call.fault call.later id approve adminId note call.requestId).run.Guarded i
      (FindsOut i call) (call.May a k) fun {_} q => q.Spares a k := by
  have hrow : (decideRow atlas id approve adminId note call.requestId).run.Guarded i
      (FindsOut i call) (call.May a k) fun {_} q => q.Spares a k := by
    refine Action.guarded_look fun s o hs hclaim => ?_
    cases o with
    | none => exact Or.inl trivial
    | some claim =>
      by_cases hmay : claim.contractorId = k ∧ a.claimed = true
      · refine Or.inr ?_
        have hdecision : call.request.isDecision = true := by rw [hcall]; rfl
        rw [Call.May, hcall]
        exact ⟨hmay.2, hmay.1 ▸ hs.2 hdecision id claim hclaim⟩
      · refine Or.inl (Prog.guarded_of_each (each_decideFound (allowsDecision_spares fun hid => ?_)))
        exact Bool.eq_false_iff.mpr fun hclaimed => hmay ⟨hid, hclaimed⟩
  refine Prog.Guarded.bind (Prog.Guarded.bind (hrow.failAt call.fault) fun outcome => ?_)
    fun outcome => ?_
  · cases outcome with
    | ok outcome => exact ⟨spares_commit, fun _ => trivial⟩
    | error e => exact ⟨spares_rollback, fun _ => trivial⟩
  · cases outcome with
    | error e => trivial
    | ok outcome =>
      refine Action.each_failAt (p := reread id outcome) ?_ call.later
      intro decided
      cases decided <;> trivial

/-- **Every request finds out that it may write the columns before it does**, or may in any case. -/
theorem guarded_serve (call : Call) :
    (serve atlas call).run.Guarded i (FindsOut i call) (call.May a k) (fun {_} q => q.Spares a k) ∨
      ∀ s, call.May a k s := by
  obtain ⟨request, requestId, fault, later⟩ := call
  have hsparing {α : Type} {p : Registering α} {f : α → Response} {J A : Db → Prop}
      (h : Sparing a k p) :
      (p >>= fun a => pure (f a)).run.Guarded i J A fun {_} q => q.Spares a k :=
    Guarded.answer (Prog.guarded_of_each h)
  cases request with
  | importFile options =>
    cases hdry : options.dryRun with
    | true =>
      exact Or.inl (hsparing (each_runImport_dry hdry fun _ => spares_other fun _ _ _ h => h))
    | false =>
      cases himported : a.imported with
      | true => exact Or.inr fun s => ⟨⟨hdry, himported⟩, trivial⟩
      | false => exact Or.inl (hsparing (each_runImport (allowsImport_spares himported)))
  | rederive =>
    exact Or.inl (hsparing (each_rederiveCslbTrades spares_commit spares_rollback
      (fun _ => spares_other fun _ _ _ h => h) fun _ => spares_other fun _ _ _ h => h))
  | runOnce config =>
    by_cases hplace : a = .place
    · exact Or.inr fun s => ⟨hplace, trivial⟩
    · exact Or.inl (hsparing (each_runOnce (allowsPass_spares hplace)))
  | recomputeAll page pages =>
    by_cases hbadge : a = .badge
    · exact Or.inr fun s => ⟨hbadge, trivial⟩
    · exact Or.inl (hsparing
        (each_recomputeAll spares_commit spares_rollback (allowsBadge_spares hbadge)))
  | openClaim id userId method evidence =>
    by_cases hmay : id = k ∧ a.claimed = true
    · exact Or.inr fun s => ⟨hmay, trivial⟩
    · refine Or.inl (hsparing (each_inTransaction spares_commit spares_rollback
        (each_openRow_on ⟨allowsDecision_spares fun hid => ?_, fun _ => spares_other fun _ _ _ h => h⟩)))
      exact Bool.eq_false_iff.mpr fun hclaimed => hmay ⟨hid, hclaimed⟩
  | withdrawClaim id userId =>
    exact Or.inl (hsparing (each_inTransaction spares_commit spares_rollback
      (each_withdrawRow (fun _ => spares_other fun _ _ _ h => h)
        fun _ => spares_other fun _ _ _ h => h)))
  | decideClaim id approve adminId note => exact Or.inl (Guarded.answer (guarded_decideClaim rfl))
  | updateProfile caller id body =>
    refine Or.inl (Guarded.answer ?_)
    rw [updateProfile]
    split
    · trivial
    refine guarded_claimedBy rfl (fun s hid howned => ?_) fun hne =>
      spares_editProfile fun hid => absurd hid hne
    cases hedited : a.edited with
    | true => exact Or.inl ⟨⟨hid, hedited⟩, howned⟩
    | false => exact Or.inr (spares_editProfile fun _ => hedited)
  | setPhoto caller id key bytes =>
    refine Or.inl (Guarded.answer (Prog.Guarded.failAt ?_ fault))
    refine guarded_claimedBy rfl (fun s hid howned => ?_) fun hne => ?_
    · by_cases hphoto : a = .photo
      · exact Or.inl ⟨⟨hid, hphoto⟩, howned⟩
      · refine Or.inr ?_
        split
        · trivial
        · exact Action.each_andThen (each_updateListing (spares_photo (fun _ => hphoto) _))
            fun _ => trivial
    · split
      · trivial
      · exact Action.each_andThen (each_updateListing (spares_photo (fun hid => absurd hid hne) _))
          fun _ => trivial
  | removePhoto caller id =>
    refine Or.inl (Guarded.answer (Prog.Guarded.failAt ?_ fault))
    refine guarded_claimedBy rfl (fun s hid howned => ?_) fun hne =>
      each_updateListing (spares_photo (fun hid => absurd hid hne) none)
    by_cases hphoto : a = .photo
    · exact Or.inl ⟨⟨hid, hphoto⟩, howned⟩
    · exact Or.inr (each_updateListing (spares_photo (fun _ => hphoto) none))
  | putServiceAreas caller id inputs =>
    refine Or.inl (Guarded.answer ?_)
    rw [putServiceAreas]
    split
    · trivial
    refine guarded_claimedBy rfl (fun s hid howned => ?_) fun hne =>
      spares_replaceAreas fun hid => absurd hid hne
    by_cases hradius : a = .radius
    · exact Or.inl ⟨⟨hid, hradius⟩, howned⟩
    · exact Or.inr (spares_replaceAreas fun _ => hradius)
  | reportTrade contractorId tradeId held =>
    refine Or.inl (hsparing (p := reportTrade contractorId tradeId held) ⟨?_, fun _ => trivial⟩)
    exact spares_other fun _ _ _ h => h

end Guarded

/-! ### Whole runs -/

section Runs

variable {s₀ : Db} {c d : Config ℕ Db Call (Except AppError Response) Query} {k : Uuid}

/-- Owners and decisions stay. -/
theorem grown_of_step (hquiet : s₀.Quiet) (hc : Reachable (registry atlas) anyQuery (.initial s₀) c)
    (hstep : Step (registry atlas) anyQuery c d) :
    Table.Grown Held c.db.contractors d.db.contractors ∧
      Table.Grown Final c.db.claims d.db.claims := by
  let I : Db → Prop := fun s => s.contractors.Ordered Held ∧ s.claims.Ordered Final
  let R : Db → Db → Prop := fun s s' =>
    Table.Grown Held s.contractors s'.contractors ∧ Table.Grown Final s.claims s'.claims
  have hrun {c d : Config ℕ Db Call (Except AppError Response) Query} (hs : I c.db)
      (h : Reachable (registry atlas) anyQuery c d) : I d.db ∧ R c.db d.db := by
    refine rel_of_run I R (fun s => ⟨fun _ => .refl _, fun _ => .refl _⟩) ?_ ?_ ?_ hs h
    · exact fun s t u h h' =>
        ⟨fun l => .trans _ _ _ (h.1 l) (h'.1 l), fun l => .trans _ _ _ (h.2 l) (h'.2 l)⟩
    · intro β q i s b s' hs _ hr
      obtain ⟨⟨hheld, hgrown⟩, hfinal, hgrown'⟩ := ordered_step hr hs.1 hs.2
      exact ⟨⟨hheld, hfinal⟩, hgrown, hgrown'⟩
    · exact fun s n hs => ⟨hs, fun _ => .refl _, fun _ => .refl _⟩
  have hstart : I s₀ := ⟨Table.ordered_of_unlocked hquiet.contractors.unlocked,
    Table.ordered_of_unlocked hquiet.claims.unlocked⟩
  exact (hrun (hrun hstart hc).1 (.single hstep)).2

theorem owned_of_step (hquiet : s₀.Quiet) (hc : Reachable (registry atlas) anyQuery (.initial s₀) c)
    (hstep : Step (registry atlas) anyQuery c d) {u : Uuid} (h : c.db.Owned k u) :
    d.db.Owned k u := by
  obtain ⟨l, hl, hu⟩ := h
  obtain ⟨l', hl', hkept⟩ := (grown_of_step hquiet hc hstep).1 k l hl
  exact ⟨l', hl', hkept u hu⟩

theorem claimOn_of_step (hquiet : s₀.Quiet)
    (hc : Reachable (registry atlas) anyQuery (.initial s₀) c)
    (hstep : Step (registry atlas) anyQuery c d) {id : Uuid} (h : c.db.ClaimOn id k) :
    d.db.ClaimOn id k := by
  obtain ⟨claim, hclaim, hk⟩ := h
  obtain ⟨claim', hclaim', hon, -⟩ := (grown_of_step hquiet hc hstep).2 id claim hclaim
  exact ⟨claim', hclaim', hon.trans hk⟩

/-- **Nobody is entitled and then is not.** -/
theorem may_of_step {a : Facet} {call : Call} (hquiet : s₀.Quiet)
    (hc : Reachable (registry atlas) anyQuery (.initial s₀) c)
    (hstep : Step (registry atlas) anyQuery c d) (h : call.May a k c.db) : call.May a k d.db := by
  refine ⟨h.1, ?_⟩
  have hentitled := h.2
  revert hentitled
  cases call.request with
  | updateProfile | setPhoto | removePhoto | putServiceAreas => exact owned_of_step hquiet hc hstep
  | decideClaim => exact claimOn_of_step hquiet hc hstep
  | importFile | rederive | runOnce | recomputeAll | openClaim | withdrawClaim | reportTrade =>
    exact fun _ => trivial

/-- **Authority over the columns of a listing**, once it is known what the processes that look may
rely on. -/
theorem listing_authority {a : Facet} {J : ℕ → Call → Db → Prop} {may : Call → Db → Prop}
    (hquiet : s₀.Quiet)
    (hprog : ∀ i call, (serve atlas call).run.Guarded i (J i call) (may call)
      (fun {_} q => q.Spares a k) ∨ ∀ s, may call s)
    (hJ : ∀ {c : Config ℕ Db Call (Except AppError Response) Query} {i : ℕ} {call : Call}
      {p : Prog ℕ Db Query (Except AppError Response)},
      Reachable (registry atlas) anyQuery (.initial s₀) c → c.procs i = .running call p →
        J i call c.db)
    (hmay : ∀ {c d : Config ℕ Db Call (Except AppError Response) Query} {call : Call},
      Reachable (registry atlas) anyQuery (.initial s₀) c → Step (registry atlas) anyQuery c d →
        may call c.db → may call d.db) :
    Authority (registry atlas) anyQuery s₀ (fun s => s.contractors.slot k) a.get may :=
  .of_guarded (φ := fun _ {_} q => q.Spares a k) (hquiet.contractors.unlocked k)
    (fun q i s b s' hr => (Query.contractors_effect hr).moves k)
    (fun i s s' hr => by cases hr; rfl) (fun s n => rfl) hprog hJ hmay
    fun q i call s b s' hspares hr => (Query.contractors_effect hr).reads fun o r => hspares o r

/-- What an owner asks for gives no listing away. -/
theorem spares_owner {call : Call} (h : call.request.isOwners = true) :
    (serve atlas call).run.Each fun {_} q => q.Spares .owner k := by
  obtain ⟨request, requestId, fault, later⟩ := call
  have hdone {α : Type} {p : Registering α} {f : α → Response} (hp : Sparing .owner k p) :
      Sparing .owner k (p >>= fun a => pure (f a)) :=
    Action.each_andThen hp fun _ => trivial
  cases request with
  | updateProfile caller id body =>
    exact hdone (each_updateProfile ⟨fun _ _ _ => spares_update fun _ => rfl⟩ spares_commit
      spares_rollback (fun _ => spares_update fun _ => rfl)
      fun _ _ _ => spares_other fun _ _ _ h => h)
  | setPhoto caller id key bytes => exact hdone (each_setPhoto fun _ => spares_update fun _ => rfl)
  | removePhoto caller id => exact hdone (each_removePhoto fun _ => spares_update fun _ => rfl)
  | putServiceAreas caller id inputs =>
    exact hdone (each_putServiceAreas spares_commit spares_rollback
      (fun _ => spares_update fun _ => rfl) (fun _ => spares_other fun _ _ _ h => h)
      fun _ => spares_other fun _ _ _ h => h)
  | importFile | rederive | runOnce | recomputeAll | openClaim | withdrawClaim | decideClaim
  | reportTrade => cases h

/-- A query that leaves a claim on the listing that it is on. -/
def Query.SparesClaim (id : Uuid) {β : Type} (q : Query β) : Prop :=
  ∀ o claim', q.writesClaim id o claim' →
    some claim'.contractorId = o.map Claim.contractorId

/-- Deciding claims puts no claim on a listing. -/
theorem spares_claim {call : Call} (id : Uuid) (h : call.request.isDecision = true) :
    (serve atlas call).run.Each fun {_} q => q.SparesClaim id := by
  obtain ⟨request, requestId, fault, later⟩ := call
  have hon (contractorId : Uuid) : AllowsDecisionOn (fun {_} q => q.SparesClaim id) contractorId :=
    { verification := fun _ _ _ _ _ h => h.elim
      attach := fun _ _ _ _ h => h.elim
      decide := by
        rintro id' status decidedBy note now o claim' ⟨-, claim, rfl, -, hdecide⟩
        rw [(Claim.decide_eq hdecide).1]
        rfl
      grantRole := fun _ _ _ _ _ h => h.elim
      recordCheck := fun _ _ _ h => h.elim
      record := fun _ _ _ h => h.elim }
  cases request with
  | decideClaim id' approve adminId note =>
    refine Action.each_andThen (Action.each_andThen (each_inTransaction (fun _ _ h => h.elim)
      (fun _ _ h => h.elim) fun claim => ?_) fun outcome => Action.each_failAt ?_ later)
      fun _ => trivial
    · cases claim with
      | none => trivial
      | some claim => exact each_decideFound (hon claim.contractorId)
    · intro decided
      cases decided <;> trivial
  | importFile | rederive | runOnce | recomputeAll | openClaim | withdrawClaim | updateProfile
  | setPhoto | removePhoto | putServiceAreas | reportTrade => cases h

/-- **In every run, what a process finds out is so for everybody.** -/
theorem findsOut_of_reachable (hquiet : s₀.Quiet)
    (hc : Reachable (registry atlas) anyQuery (.initial s₀) c) {i : ℕ} {call : Call}
    {p : Prog ℕ Db Query (Except AppError Response)} (hi : c.procs i = .running call p) :
    FindsOut i call c.db := by
  constructor
  · rintro howners k u ⟨l, hl, hu⟩
    have hauthority : Authority (registry atlas) anyQuery s₀ (fun s => s.contractors.slot k)
        Facet.owner.get fun call _ => call.request.isOwners = false := by
      refine listing_authority (J := fun _ _ _ => True) hquiet (fun i call => ?_)
        (fun _ _ => trivial) fun _ _ h => h
      cases h : call.request.isOwners with
      | true => exact Or.inl (Prog.guarded_of_each (spares_owner h))
      | false => exact Or.inr fun _ => rfl
    rcases hauthority.rightful hc i with hfaithful | ⟨call', p', hi', hmay⟩
    · have hsame := hfaithful.visible
      rw [show (c.db.contractors.slot k).visible i = some l from hl] at hsame
      cases hpublished : (c.db.contractors.slot k).committed with
      | none =>
        rw [hpublished] at hsame
        have hnone : l.claimedByUserId = none := congrArg Prod.fst hsame
        rw [hnone] at hu
        cases hu
      | some l' =>
        rw [hpublished] at hsame
        have howner : l.claimedByUserId = l'.claimedByUserId := congrArg Prod.fst hsame
        exact ⟨l', hpublished, howner ▸ hu⟩
    · rw [hi] at hi'
      cases hi'
      rw [howners] at hmay
      cases hmay
  · intro hdecision id claim hclaim
    have hauthority : Authority (registry atlas) anyQuery s₀ (fun s => s.claims.slot id)
        (Option.map Claim.contractorId) fun call _ => call.request.isDecision = false := by
      refine .of_guarded (J := fun _ _ _ => True) (φ := fun _ {_} q => q.SparesClaim id)
        (hquiet.claims.unlocked id) (fun q i s b s' hr => (Query.claims_effect hr).moves id)
        (fun i s s' hr => by cases hr; rfl) (fun s n => rfl) (fun i call => ?_) (fun _ _ => trivial)
        (fun _ _ h => h)
        fun q i call s b s' hspares hr => (Query.claims_effect hr).reads fun o r => hspares o r
      cases h : call.request.isDecision with
      | true => exact Or.inl (Prog.guarded_of_each (spares_claim id h))
      | false => exact Or.inr fun _ => rfl
    rcases hauthority.rightful hc i with hfaithful | ⟨call', p', hi', hmay⟩
    · have hsame := hfaithful.visible
      rw [show (c.db.claims.slot id).visible i = some claim from hclaim] at hsame
      obtain ⟨claim', hpublished, hon⟩ := Option.map_eq_some_iff.mp hsame.symm
      exact ⟨claim', hpublished, hon⟩
    · rw [hi] at hi'
      cases hi'
      rw [hdecision] at hmay
      cases hmay

/-- Authority over the columns of a listing. -/
theorem authority (atlas : Atlas) (hquiet : s₀.Quiet) (a : Facet) (k : Uuid) :
    Authority (registry atlas) anyQuery s₀ (fun s => s.contractors.slot k) a.get fun call =>
      call.May a k :=
  listing_authority hquiet (fun _ call => guarded_serve call)
    (fun hc hi => findsOut_of_reachable hquiet hc hi) fun hc hs h => may_of_step hquiet hc hs h

/-- **A listing is written by those it is for.** In every interleaving, from a database that nobody
is at work on, a step that changes what some columns of a listing say is a query of a process whose
request writes these columns of this listing, and who asked for it owns the listing, if only its
owner may. -/
theorem listing_changed (hquiet : s₀.Quiet)
    (hc : Reachable (registry atlas) anyQuery (.initial s₀) c)
    (hstep : Step (registry atlas) anyQuery c d) {a : Facet}
    (hne : a.get (d.db.contractors.slot k).committed ≠ a.get (c.db.contractors.slot k).committed) :
    ∃ i call, c.Issues (registry atlas) i call d ∧ call.request.Reaches a k ∧
      call.request.Entitled k c.db :=
  (authority atlas hquiet a k).changed hc hstep hne

/-- The request is one that account `u` makes as the owner of listing `k`. -/
def Request.IsEditBy (u k : Uuid) : Request → Prop
  | .updateProfile caller id _ | .setPhoto caller id _ _ | .removePhoto caller id
  | .putServiceAreas caller id _ => caller = u ∧ id = k
  | _ => False

/-- What is for owners is not written by anybody else. -/
theorem isEditBy_of_reaches {a : Facet} (ha : a = .profile ∨ a = .photo ∨ a = .radius) {u : Uuid}
    {db : Db} (hu : db.Owned k u) {request : Request} (hreach : request.Reaches a k)
    (hentitled : request.Entitled k db) : request.IsEditBy u k := by
  have howner {caller : Uuid} (h : db.Owned k caller) : caller = u := by
    obtain ⟨l, hl, hcaller⟩ := h
    obtain ⟨l', hl', hu'⟩ := hu
    rw [hl] at hl'
    cases hl'
    exact Option.some.inj (hcaller.symm.trans hu')
  cases request with
  | updateProfile | setPhoto | removePhoto | putServiceAreas =>
    exact ⟨howner hentitled, hreach.1⟩
  | importFile | runOnce | recomputeAll | openClaim | decideClaim =>
    rcases ha with rfl | rfl | rfl <;> simp [Request.Reaches, Facet.imported, Facet.claimed] at hreach
  | rederive | withdrawClaim | reportTrade => exact hreach.elim

/-- **What an owner has written stays**, whatever imports, passes, re-checks, decisions and other
accounts do, and in whatever order their statements come, as long as the owner edits nothing. -/
theorem edits_kept (hquiet : s₀.Quiet)
    (hc : Reachable (registry atlas) anyQuery (.initial s₀) c) {u : Uuid} (hu : c.db.Owned k u)
    {a : Facet} (ha : a = .profile ∨ a = .photo ∨ a = .radius)
    (hrun : Relation.ReflTransGen (fun c d => Step (registry atlas) anyQuery c d ∧
      ∀ i call, c.Issues (registry atlas) i call d → ¬ call.request.IsEditBy u k) c d) :
    a.get (d.db.contractors.slot k).committed = a.get (c.db.contractors.slot k).committed := by
  -- the owner stays the owner, so that nobody else comes to be entitled
  have hboth : Reachable (registry atlas) anyQuery c d ∧ d.db.Owned k u ∧
      a.get (d.db.contractors.slot k).committed = a.get (c.db.contractors.slot k).committed := by
    induction hrun with
    | refl => exact ⟨.refl, hu, rfl⟩
    | @tail d e _ hstep ih =>
      obtain ⟨hcd, hd, hsame⟩ := ih
      refine ⟨hcd.tail hstep.1, owned_of_step hquiet (hc.trans hcd) hstep.1 hd, ?_⟩
      by_contra hne
      have hchange : a.get (e.db.contractors.slot k).committed ≠
          a.get (d.db.contractors.slot k).committed := fun heq => hne (heq.trans hsame)
      obtain ⟨i, call, hissues, hmay⟩ :=
        (authority atlas hquiet a k).changed (hc.trans hcd) hstep.1 hchange
      exact hstep.2 i call hissues (isEditBy_of_reaches ha hd hmay.1 hmay.2)
  exact hboth.2.2

end Runs

/-! ### One owner -/

theorem quiet_servingDb : servingDb.Quiet := by
  constructor <;> exact fun _ => rfl

/-- The owner sets a photograph. -/
def picturesIt : Call := { request := .setPhoto 7 1 5 [] }

/-- The step that sets the photograph is one that the owner asked for. -/
theorem listing_changed_picturesIt : ∃ c d : Config ℕ Db Call (Except AppError Response) Query,
    Reachable (registry .plain) anyQuery (.initial servingDb) c ∧
      Step (registry .plain) anyQuery c d ∧
      Facet.photo.get (d.db.contractors.slot 1).committed = some ⟨(1, 5), 1, 1⟩ ∧
      ∃ i call, c.Issues (registry .plain) i call d ∧ call.request.Reaches .photo 1 ∧
        call.request.Entitled 1 c.db := by
  obtain ⟨c, d, e, hc, hstep, -, hP⟩ := exists_of_exec_step_exec (registry .plain)
    [.arrive 0 picturesIt, .run 0] (.run 0) [] (.initial servingDb)
    (fun c d _ => ((c.db.contractors.slot 1).committed.elim true fun l => l.photo.isNone) &&
      ((d.db.contractors.slot 1).committed.any fun l => l.photo = some ⟨(1, 5), 1, 1⟩))
    (by decide +kernel)
  obtain ⟨hbefore, hafter⟩ := Bool.and_eq_true_iff.mp hP
  obtain ⟨l, hl, hphoto⟩ := (Option.any_eq_true _ _).mp hafter
  have hnew : Facet.photo.get (d.db.contractors.slot 1).committed = some ⟨(1, 5), 1, 1⟩ := by
    have hset : l.photo = some ⟨(1, 5), 1, 1⟩ := of_decide_eq_true hphoto
    rw [hl]
    exact hset
  have hold : Facet.photo.get (c.db.contractors.slot 1).committed = none := by
    cases hrow : (c.db.contractors.slot 1).committed with
    | none => rfl
    | some l =>
      rw [hrow] at hbefore
      exact Option.isNone_iff_eq_none.mp hbefore
  refine ⟨c, d, hc, hstep, hnew, listing_changed quiet_servingDb hc hstep ?_⟩
  rw [hnew, hold]
  exact Option.some_ne_none _

/-- A listing that an account owns, with a photograph. -/
def picturedDb : Db where
  contractors := .ofList (fun _ => 1)
    [(Change.photo (some ⟨(1, 5), 1, 1⟩)).apply
      ((SourceFacts.row ⟨1, "Acme".toList, "acme".toList, none, none⟩).attachClaimant 7 0)]
    (by decide)

/-- The nightly re-check writes the badge, and leaves the photograph. -/
theorem edits_kept_recheck : ∃ c d : Config ℕ Db Call (Except AppError Response) Query,
    Reachable (registry .plain) anyQuery c d ∧
      (d.db.contractors.slot 1).committed ≠ (c.db.contractors.slot 1).committed ∧
      Facet.photo.get (d.db.contractors.slot 1).committed =
        Facet.photo.get (c.db.contractors.slot 1).committed := by
  have hexec : (exec (registry .plain)
      (.arrive 0 { request := .recomputeAll 1 1 } :: List.replicate 6 (.run 0))
      (.initial picturedDb)).any (fun d => decide ((d.db.contractors.slot 1).committed ≠
        (picturedDb.contractors.slot 1).committed)) = true := by decide +kernel
  obtain ⟨d, hd, hchanged⟩ := (Option.any_eq_true _ _).mp hexec
  have hquiet : picturedDb.Quiet := by
    constructor <;> exact fun _ => rfl
  have hrun := run_of_exec (fun call : Call => ¬ call.request.IsEditBy 7 1)
    (fun i call hcall => by
      rcases List.mem_cons.mp hcall with he | he
      · cases he
        exact id
      · cases List.eq_of_mem_replicate he)
    (fun i call p hi => absurd hi Proc.running_ne_idle.symm) hd
  exact ⟨.initial picturedDb, d, reachable_of_exec hd, of_decide_eq_true hchanged,
    edits_kept hquiet .refl ⟨_, rfl, rfl⟩ (Or.inr (Or.inl rfl)) hrun⟩

end Marketplace.Registry
