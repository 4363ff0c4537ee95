import Marketplace.Registry.Ownership

/-!
# Claims and owners, in every interleaving

From a database in which a listing has an owner exactly when the account has an approved claim on
it, every interleaving of the registry leads to such a database. What carries the proof is what a
process sees beside what is published: as many approved claims as owners, whenever it may commit
(`Marketplace.Registry.level`), and one more while it gives a listing away.

What is answered is told of as well. A claim whose opening fails has changed nothing, and neither
has a decision, unless what failed is the reading of the claim after the commit; the decision
stands then (`Marketplace.Registry.answeredAs`).
-/

namespace Marketplace.Registry

open ReadCommitted

variable {atlas : Atlas}

/-! ### The contract -/

/-- **The invariant**: owners and decisions stay, an account has one listing at most, and the
owners are who has an approved claim. -/
structure OwnersInv (s : Db) : Prop where
  held : s.contractors.Ordered Held
  final : s.claims.Ordered Final
  single : s.contractors.AtMostOne Contractor.claimedByUserId
  agree : ∀ k u, s.Owned k u ↔ s.Granted k u

/-- What a step may do. -/
structure OwnersGuar (j : ℕ) (s s' : Db) : Prop where
  contractors : Table.Moves j s.contractors s'.contractors
  claims : Table.Moves j s.claims s'.claims
  held : Table.Grown Held s.contractors s'.contractors
  final : Table.Grown Final s.claims s'.claims

section Step

variable {β : Type} {q : Query β} {i : ℕ} {s s' : Db} {b : β}

theorem owners_step (hs : OwnersInv s) (h : q.run atlas i s = some (b, s'))
    (hagree : ∀ k u, s'.Owned k u ↔ s'.Granted k u) : OwnersInv s' ∧ OwnersGuar i s s' := by
  obtain ⟨⟨hheld, hgrown⟩, hfinal, hgrown'⟩ := ordered_step h hs.held hs.final
  exact ⟨⟨hheld, hfinal, atMostOne_step h hs.single, hagree⟩,
    ⟨(Query.contractors_effect h).moves, (Query.claims_effect h).moves, hgrown, hgrown'⟩⟩

theorem owners_step_rollback (atlas : Atlas) (hs : OwnersInv s) :
    OwnersInv (s.rollback i) ∧ OwnersGuar i s (s.rollback i) := by
  have hrun : Query.rollback.run atlas i s = some ((), s.rollback i) := rfl
  refine owners_step hs hrun fun k u => ?_
  rw [owned_rollback, granted_rollback]
  exact hs.agree k u

end Step

/-- **The contract.** -/
def ownersContract (atlas : Atlas) : Contract (registry atlas) anyQuery where
  inv := OwnersInv
  guar := OwnersGuar
  inv_tick _ hs := ⟨hs.held, hs.final, hs.single, hs.agree⟩
  rollback := by
    intro i s s' hs _ hq
    obtain rfl : s.rollback i = s' := congrArg Prod.snd (Option.some.inj hq)
    exact owners_step_rollback atlas hs

/-! ### What a process sees -/

/-- Beside the owners it sees, process `i` sees the approved claims `D`. -/
def Db.Sees (i : ℕ) (D : Uuid → Uuid → Prop) (s : Db) : Prop :=
  ∀ k u, s.Grants i k u ↔ s.Owns i k u ∨ D k u

section Seen

variable {i j : ℕ} {D : Uuid → Uuid → Prop} {s s' : Db} {k u : Uuid}

theorem owns_of_other (hg : OwnersGuar j s s') (hs' : OwnersInv s') (hne : j ≠ i) :
    s'.Owns i k u ↔ s.Owns i k u ∨ s'.Owned k u := by
  refine Table.seen_iff_of_other (fun v w h c hc hu => ?_) hs'.held hg.held hg.contractors
    Held.refl hne k
  obtain ⟨c', hc', hkept⟩ := h c hc
  exact ⟨c', hc', hkept u hu⟩

theorem grants_of_other (hg : OwnersGuar j s s') (hs' : OwnersInv s') (hne : j ≠ i) :
    s'.Grants i k u ↔ s.Grants i k u ∨ s'.Granted k u := by
  have hone := fun id => Table.seen_iff_of_other (i := i) (k := id)
    (Final.approves (k := k) (u := u)) hs'.final hg.final hg.claims Final.refl hne
  rw [Db.Grants, exists_congr hone, exists_or]
  rfl

/-- **The step of another process adds to both what it publishes.** -/
theorem Db.Sees.of_other (h : s.Sees i D) (hg : OwnersGuar j s s') (hs' : OwnersInv s')
    (hne : j ≠ i) : s'.Sees i D := by
  intro k u
  rw [grants_of_other hg hs' hne, owns_of_other hg hs' hne, h k u, hs'.agree k u]
  tauto

theorem Db.Sees.of_plain {β : Type} {q : Query β} {b : β} (h : s.Sees i D)
    (hrun : q.run atlas i s = some (b, s')) (hq : q.isPlain) : s'.Sees i D := by
  intro k u
  rw [grants_plain hrun hq, owns_plain hrun hq, h k u]

/-- A claim of a version that is read keeps its listing and its account. -/
def Known (id k u : Uuid) (i : ℕ) (s : Db) : Prop :=
  ∃ claim, s.claims.row i id = some claim ∧ claim.contractorId = k ∧ claim.userId = u

/-- The claim is decided, as process `i` sees it. -/
def Settled (id : Uuid) (φ : Claim → Prop) (i : ℕ) (s : Db) : Prop :=
  ∃ claim, s.claims.row i id = some claim ∧ claim.status ≠ .pending ∧ φ claim

end Seen

variable {i : ℕ} {id k u : Uuid} {D : Uuid → Uuid → Prop} {φ : Claim → Prop}

/-- Beside the owners it sees, the process sees the approved claims `D`. -/
def sees (D : Uuid → Uuid → Prop) : Assertion (ownersContract atlas) i where
  holds s := s.Sees i D
  stable hne _ hs' hg h := h.of_other hg hs' hne
  tick _ _ h := h

/-- **What the process sees, it may publish.** -/
abbrev level : Assertion (ownersContract atlas) i := sees fun _ _ => False

/-- The process is about to publish a claim that is not decided. -/
def drafted (id k u : Uuid) : Assertion (ownersContract atlas) i where
  holds s := ∃ claim, s.claims.Draft i id claim ∧ claim.status = .pending ∧
    claim.contractorId = k ∧ claim.userId = u
  stable := by
    rintro j s s' hne - - hg ⟨claim, hdraft, hclaim⟩
    exact ⟨claim, (Table.draft_iff_of_other hg.claims hne).mpr hdraft, hclaim⟩
  tick _ _ h := h

/-- The process has seen a claim. -/
def known (id k u : Uuid) : Assertion (ownersContract atlas) i where
  holds := Known id k u i
  stable := by
    rintro j s s' hne - - hg ⟨claim, hrow, hk, hu⟩
    obtain ⟨claim', hrow', hk', hu', -⟩ :=
      Table.le_row_of_other hg.claims hg.final Final.refl hne id claim hrow
    exact ⟨claim', hrow', hk'.trans hk, hu'.trans hu⟩
  tick _ _ h := h

/-- The process sees that a claim is decided. -/
def settled (id : Uuid) (φ : Claim → Prop) : Assertion (ownersContract atlas) i where
  holds := Settled id φ i
  stable := by
    rintro j s s' hne - - hg ⟨claim, hrow, hne', hφ⟩
    obtain ⟨claim', hrow', -, -, hsame⟩ :=
      Table.le_row_of_other hg.claims hg.final Final.refl hne id claim hrow
    exact ⟨claim', hrow', by rw [hsame hne']; exact ⟨hne', hφ⟩⟩
  tick _ _ h := h

/-- It is published that a claim is decided. -/
def decidedAs (id : Uuid) (φ : Claim → Prop) : Assertion (ownersContract atlas) i where
  holds s := ∃ claim, (s.claims.slot id).committed = some claim ∧ claim.status ≠ .pending ∧ φ claim
  stable := by
    rintro j s s' - - - hg ⟨claim, hc, hne, hφ⟩
    obtain ⟨claim', hc', -, -, hsame⟩ := hg.final id claim hc
    exact ⟨claim', hc', by rw [hsame hne]; exact ⟨hne, hφ⟩⟩
  tick _ _ h := h

/-! ### What keeps it -/

/-- The query is not one on claims, and does not end the transaction. -/
def Query.leavesClaims {β : Type} : Query β → Prop
  | .claim _ _ | .commit | .rollback => False
  | _ => True

/-- The query neither gives a listing away nor approves a claim. -/
def Query.isOrderly {β : Type} : Query β → Prop
  | .commit | .rollback => True
  | q => q.isPlain

section Keeps

variable {β : Type} {q : Query β} {s s' : Db} {b : β}

theorem claims_eq (h : q.run atlas i s = some (b, s')) (hq : q.leavesClaims) :
    s'.claims = s.claims := by
  cases q with
  | claim | commit | rollback => exact hq.elim
  | license | addVersion | importRun | listing | trade | area | job | grantRole | recordCheck
  | record =>
    obtain ⟨⟨b', t⟩, ht, he⟩ := Option.map_eq_some_iff.mp h
    cases he
    rfl

theorem plain_step (hs : OwnersInv s) (h : q.run atlas i s = some (b, s')) (hq : q.isPlain) :
    OwnersInv s' ∧ OwnersGuar i s s' := by
  refine owners_step hs h fun k u => ?_
  rw [owned_plain h hq, granted_plain h hq]
  exact hs.agree k u

theorem sees_keeps (hq : q.isPlain) :
    (ownersContract atlas).Keeps (sees D : Assertion (ownersContract atlas) i) q := by
  intro s b s' hs hP _ hrun
  obtain ⟨hs', hg⟩ := plain_step hs hrun hq
  exact ⟨hs', hg, hP.of_plain hrun hq⟩

theorem sees_settled_keeps (hq : q.isPlain) (hclaims : q.leavesClaims) :
    (ownersContract atlas).Keeps
      ((sees D).and (settled id φ) : Assertion (ownersContract atlas) i) q := by
  intro s b s' hs hP _ hrun
  obtain ⟨hs', hg, hsees⟩ := sees_keeps hq s b s' hs hP.1 trivial hrun
  obtain ⟨claim, hrow, hclaim⟩ := hP.2
  exact ⟨hs', hg, hsees, claim, by rwa [claims_eq hrun hclaims], hclaim⟩

/-- **What is level when it is committed is published so.** -/
theorem commit_step (atlas : Atlas) (hs : OwnersInv s) (hlevel : s.Sees i fun _ _ => False) :
    OwnersInv (s.commit i) ∧ OwnersGuar i s (s.commit i) ∧ (s.commit i).Sees i fun _ _ => False := by
  have hrun : Query.commit.run atlas i s = some ((), s.commit i) := rfl
  obtain ⟨hs', hg⟩ := owners_step hs hrun fun k u => by
    rw [owned_commit, granted_commit, hlevel k u, or_false]
  refine ⟨hs', hg, fun k u => ?_⟩
  rw [grants_commit, owns_commit]
  exact hlevel k u

theorem rollback_step (atlas : Atlas) (hs : OwnersInv s) :
    OwnersInv (s.rollback i) ∧ OwnersGuar i s (s.rollback i) ∧
      (s.rollback i).Sees i fun _ _ => False := by
  obtain ⟨hs', hg⟩ := owners_step_rollback atlas (i := i) hs
  refine ⟨hs', hg, fun k u => ?_⟩
  rw [grants_rollback, owns_rollback, or_false]
  exact (hs.agree k u).symm

theorem level_keeps (hq : q.isOrderly) :
    (ownersContract atlas).Keeps (level : Assertion (ownersContract atlas) i) q := by
  cases q with
  | commit =>
    intro s b s' hs hP _ hrun
    cases hrun
    exact commit_step atlas hs hP
  | rollback =>
    intro s b s' hs hP _ hrun
    cases hrun
    exact rollback_step atlas hs
  | license | addVersion | importRun | listing | trade | area | job | claim | grantRole | recordCheck
  | record => exact sees_keeps hq

end Keeps

/-! ### Deciding a claim, and giving a listing away -/

/-- The claim that is approved is on listing `k`, by account `u`. -/
def Given (status : ClaimStatus) (k u : Uuid) (k' u' : Uuid) : Prop :=
  status = .approved ∧ k' = k ∧ u' = u

section Deciding

variable {s s' : Db} {status : Decided} {decidedBy : Uuid} {note : Option Text} {now : Instant}

/-- **What the update that decides a claim has found.** -/
theorem decide_cases {hit : Bool}
    (h : (Query.claim .tx (.decide id status decidedBy note now)).run atlas i s =
      some (some (some hit), s')) :
    (hit = true ∧ ∃ claim claim', s.claims.row i id = some claim ∧ claim.status = .pending ∧
        claim.decide status decidedBy note now = some claim' ∧
        s' = { s with claims := s.claims.put id ((s.claims.slot id).put .tx i claim') }) ∨
      hit = false ∧ s' = s ∧ ∀ claim, s.claims.row i id = some claim → claim.status ≠ .pending := by
  obtain ⟨⟨b, t⟩, ht, he⟩ := Option.map_eq_some_iff.mp h
  cases he
  rcases Table.modifyUnique_checking ht with
    ⟨rfl, claim, claim', hrow, hpending, hdecide, rfl⟩ | ⟨rfl, rfl, hno⟩
  · exact Or.inl ⟨rfl, claim, claim', hrow, of_decide_eq_true hpending, hdecide, rfl⟩
  · exact Or.inr ⟨rfl, rfl, fun claim hclaim => of_decide_eq_false (hno claim hclaim)⟩

/-- A statement on claims, in the open transaction, keeps the contract. -/
theorem claim_step {β : Type} {q : ClaimStatement β} {b : β} (hs : OwnersInv s)
    (h : (Query.claim .tx q).run atlas i s = some (b, s')) : OwnersInv s' ∧ OwnersGuar i s s' := by
  refine owners_step hs h fun k u => ?_
  rw [granted_tx h, ← hs.agree k u]
  obtain ⟨⟨b', t⟩, -, he⟩ := Option.map_eq_some_iff.mp h
  cases he
  rfl

/-- **What a process sees of the approved claims once it has decided one.** -/
theorem sees_of_decide {claim claim' : Claim} (hsees : s.Sees i fun _ _ => False)
    (hrow : s.claims.row i id = some claim) (hpending : claim.status = .pending)
    (hdecide : claim.decide status decidedBy note now = some claim')
    (hs' : s' = { s with claims := s.claims.put id ((s.claims.slot id).put .tx i claim') }) :
    s'.Sees i (Given status.1 claim.contractorId claim.userId) := by
  obtain ⟨hk, hu, hstatus, -⟩ := Claim.decide_eq hdecide
  have hself : s'.claims.row i id = some claim' := by rw [hs', Table.row_put_self]
  have hother : ∀ l, l ≠ id → s'.claims.row i l = s.claims.row i l := by
    intro l hl
    rw [hs', Table.row_put_of_ne hl]
  have howns : ∀ k u, s'.Owns i k u ↔ s.Owns i k u := by
    intro k u
    rw [hs']
    rfl
  intro k u
  rw [howns, ← or_false (s.Owns i k u), ← hsees k u]
  constructor
  · rintro ⟨l, c, hc, ha⟩
    rcases eq_or_ne l id with rfl | hl
    · rw [hself] at hc
      cases hc
      exact Or.inr ⟨hstatus ▸ ha.1, by rw [← hk, ha.2.1], by rw [← hu, ha.2.2]⟩
    · rw [hother l hl] at hc
      exact Or.inl ⟨l, c, hc, ha⟩
  · rintro (⟨l, c, hc, ha⟩ | ⟨happroved, rfl, rfl⟩)
    · have hl : l ≠ id := by
        rintro rfl
        rw [hrow] at hc
        cases hc
        rw [ha.1] at hpending
        cases hpending
      exact ⟨l, c, by rw [hother l hl, hc], ha⟩
    · exact ⟨id, claim', hself, hstatus.trans happroved, hk, hu⟩

/-- What is known of a claim that is decided so. -/
def DecidedBy (status : Decided) (decidedBy : Uuid) (claim : Claim) : Prop :=
  claim.status = status.1 ∧ claim.decidedBy = some decidedBy

theorem settled_of_decide {claim claim' : Claim}
    (hdecide : claim.decide status decidedBy note now = some claim')
    (hs' : s' = { s with claims := s.claims.put id ((s.claims.slot id).put .tx i claim') }) :
    Settled id (DecidedBy status decidedBy) i s' := by
  obtain ⟨-, -, hstatus, hby⟩ := Claim.decide_eq hdecide
  refine ⟨claim', by rw [hs', Table.row_put_self], ?_, hstatus, hby⟩
  rw [hstatus]
  exact status.2

/-- **What is known once a claim has been decided**, of one that was known. -/
theorem safe_claimsDecide {status : Decided} {decidedBy : Uuid} {note : Option Text} :
    Safe (Assertion.onOk (fun hit => if hit then
        (sees (Given status.1 k u)).and (settled id (DecidedBy status decidedBy)) else .any)
        fun _ => .any)
      (Claims.decide id status decidedBy note).run
      (level.and (known id k u) : Assertion (ownersContract atlas) i) := by
  refine Safe.look_keep fun now => Safe.query_andThen
    (Assertion.onSome (Assertion.onSome fun hit => if hit then
      (sees (Given status.1 k u)).and (settled id (DecidedBy status decidedBy)) else .any))
    (fun s b s' hs hP _ hq => ?_) fun b => ?_
  · have hrun : (Query.claim .tx (.decide id status decidedBy note now)).run atlas i s =
      some (b, s') := hq
    obtain ⟨hs', hg⟩ := claim_step hs hrun
    refine ⟨hs', hg, ?_⟩
    rcases b with _ | _ | hit
    · trivial
    · trivial
    obtain ⟨rfl, claim, claim', hrow, hpending, hdecide, he⟩ | ⟨rfl, -, -⟩ := decide_cases hrun
    · obtain ⟨claim₀, hrow₀, rfl, rfl⟩ := hP.2
      rw [hrow] at hrow₀
      cases hrow₀
      exact ⟨sees_of_decide hP.1 hrow hpending hdecide he, settled_of_decide hdecide he⟩
    · trivial
  · rcases b with _ | _ | hit
    · exact fun s _ _ => trivial
    · exact fun s _ _ => trivial
    · exact fun s _ h => h

/-- A claim that the process has written itself is there to be decided. -/
theorem safe_claimsDecide_drafted {status : Decided} {decidedBy : Uuid} {note : Option Text} :
    Safe (Assertion.onOk
        (fun _ => (sees (Given status.1 k u)).and (settled id (DecidedBy status decidedBy)))
        fun _ => .any)
      (Claims.decide id status decidedBy note).run
      (level.and (drafted id k u) : Assertion (ownersContract atlas) i) := by
  refine Safe.look_keep fun now => Safe.query_andThen
    (Assertion.onSome (Assertion.onSome fun _ =>
      (sees (Given status.1 k u)).and (settled id (DecidedBy status decidedBy))))
    (fun s b s' hs hP _ hq => ?_) fun b => ?_
  · have hrun : (Query.claim .tx (.decide id status decidedBy note now)).run atlas i s =
      some (b, s') := hq
    obtain ⟨hs', hg⟩ := claim_step hs hrun
    refine ⟨hs', hg, ?_⟩
    rcases b with _ | _ | hit
    · trivial
    · trivial
    obtain ⟨claim₀, hdraft, hpending₀, rfl, rfl⟩ := hP.2
    obtain ⟨-, claim, claim', hrow, hpending, hdecide, he⟩ | ⟨-, -, hno⟩ := decide_cases hrun
    · rw [hdraft.row] at hrow
      cases hrow
      exact ⟨sees_of_decide hP.1 hdraft.row hpending hdecide he, settled_of_decide hdecide he⟩
    · exact absurd hpending₀ (hno claim₀ hdraft.row)
  · rcases b with _ | _ | hit
    · exact fun s _ _ => trivial
    · exact fun s _ _ => trivial
    · exact fun s _ h => h

end Deciding

section Giving

variable {s s' : Db} {now : Instant}

/-- **What the update that gives a listing away has found.** -/
theorem attach_cases {hit : Bool}
    (h : (Query.listing .tx (.attach k u now)).run atlas i s = some (some (some hit), s')) :
    (hit = true ∧ ∃ c, s.contractors.row i k = some c ∧ c.claimedByUserId = none ∧
        s' = { s with
          contractors :=
            s.contractors.put k ((s.contractors.slot k).put .tx i (c.attachClaimant u now)) }) ∨
      hit = false ∧ s' = s := by
  obtain ⟨⟨b, t⟩, ht, he⟩ := Option.map_eq_some_iff.mp h
  cases he
  rcases Table.modifyUnique_checking ht with ⟨rfl, c, c', hrow, hnone, hgive, rfl⟩ | ⟨rfl, rfl, -⟩
  · split at hgive
    · cases hgive
      exact Or.inl ⟨rfl, c, hrow, of_decide_eq_true hnone, rfl⟩
    · cases hgive
  · exact Or.inr ⟨rfl, rfl⟩

/-- A statement on listings, in the open transaction, keeps the contract. -/
theorem listing_step {β : Type} {q : ListingStatement β} {b : β} (hs : OwnersInv s)
    (h : (Query.listing .tx q).run atlas i s = some (b, s')) : OwnersInv s' ∧ OwnersGuar i s s' := by
  refine owners_step hs h fun k u => ?_
  rw [owned_tx h, hs.agree k u]
  obtain ⟨⟨b', t⟩, -, he⟩ := Option.map_eq_some_iff.mp h
  cases he
  rfl

/-- **What a process sees of the owners once it has given a listing away.** -/
theorem level_of_attach {c : Contractor} (hsees : s.Sees i (Given .approved k u))
    (hrow : s.contractors.row i k = some c) (hnone : c.claimedByUserId = none)
    (hs' : s' = { s with
      contractors :=
        s.contractors.put k ((s.contractors.slot k).put .tx i (c.attachClaimant u now)) }) :
    s'.Sees i fun _ _ => False := by
  have hself : s'.contractors.row i k = some (c.attachClaimant u now) := by
    rw [hs', Table.row_put_self]
  have hother : ∀ l, l ≠ k → s'.contractors.row i l = s.contractors.row i l := by
    intro l hl
    rw [hs', Table.row_put_of_ne hl]
  have hgrants : ∀ k u, s'.Grants i k u ↔ s.Grants i k u := by
    intro k u
    rw [hs']
    rfl
  intro k' u'
  rw [hgrants, hsees k' u', or_false, Db.Owns, Db.Owns, Given]
  rcases eq_or_ne k' k with rfl | hne
  · rw [hself, hrow]
    constructor
    · rintro (⟨c', hc', hu⟩ | ⟨-, -, rfl⟩)
      · cases hc'
        rw [hnone] at hu
        cases hu
      · exact ⟨_, rfl, rfl⟩
    · rintro ⟨c', hc', hu⟩
      cases hc'
      exact Or.inr ⟨rfl, rfl, (Option.some.inj hu).symm⟩
  · rw [hother k' hne]
    simp [hne]

/-- What is known once a listing has been given to who has the approved claim. -/
theorem safe_attachClaimant :
    Safe (Assertion.onOk (fun attached => if attached then level.and (settled id φ) else .any)
        fun _ => .any)
      (attachClaimant k u).run
      ((sees (Given .approved k u)).and (settled id φ) : Assertion (ownersContract atlas) i) := by
  refine Safe.look_keep fun now => Safe.query_andThen
    (Assertion.onSome (Assertion.onSome fun attached =>
      if attached then level.and (settled id φ) else .any))
    (fun s b s' hs hP _ hq => ?_) fun b => ?_
  · have hrun : (Query.listing .tx (.attach k u now)).run atlas i s = some (b, s') := hq
    obtain ⟨hs', hg⟩ := listing_step hs hrun
    refine ⟨hs', hg, ?_⟩
    rcases b with _ | _ | attached
    · trivial
    · trivial
    obtain ⟨rfl, c, hrow, hnone, he⟩ | ⟨rfl, -⟩ := attach_cases hrun
    · obtain ⟨claim, hclaim, hdecided⟩ := hP.2
      exact ⟨level_of_attach hP.1 hrow hnone he, claim, by rw [he]; exact hclaim, hdecided⟩
    · trivial
  · rcases b with _ | _ | attached
    · exact fun s _ _ => trivial
    · exact fun s _ _ => trivial
    · exact fun s _ h => h

/-- What is not given away is level. -/
theorem level_of_not_approved {status : ClaimStatus} (hstatus : status ≠ .approved)
    (h : s.Sees i (Given status k u)) : s.Sees i fun _ _ => False := by
  intro k' u'
  rw [h k' u']
  simp [Given, hstatus]

end Giving

/-! ### The transactions -/

section Rows

variable {contractorId userId adminId : Uuid} {method : ClaimMethod} {evidence : Text}
  {note : Option Text} {requestId : Option Uuid} {approve : Bool}

theorem drafted_keeps {β : Type} {q : Query β} (hq : q.isPlain) (hclaims : q.leavesClaims) :
    (ownersContract atlas).Keeps
      (level.and (drafted id k u) : Assertion (ownersContract atlas) i) q := by
  intro s b s' hs hP _ hrun
  obtain ⟨hs', hg, hlevel⟩ := sees_keeps hq s b s' hs hP.1 trivial hrun
  obtain ⟨claim, hdraft, hclaim⟩ := hP.2
  exact ⟨hs', hg, hlevel, claim, by rwa [claims_eq hrun hclaims], hclaim⟩

/-- What is known of a claim that has just been opened. -/
theorem safe_claimsOpen :
    Safe (Assertion.onOk (fun id => level.and (drafted id contractorId userId)) fun _ => .any)
      (Claims.open contractorId userId method evidence).run
      (level : Assertion (ownersContract atlas) i) := by
  refine Safe.look_keep fun now => Safe.query_andThen
    (Assertion.onSome (Assertion.onSome fun id => level.and (drafted id contractorId userId)))
    (fun s b s' hs hP _ hq => ?_) fun b => ?_
  · have hrun : (Query.claim .tx (.insert
        { contractorId := contractorId, userId := userId, method := method, evidence := evidence
          createdAt := now })).run atlas i s = some (b, s') := hq
    have hplain : (Query.claim .tx (.insert
        { contractorId := contractorId, userId := userId, method := method, evidence := evidence
          createdAt := now })).isPlain := ⟨rfl, rfl⟩
    obtain ⟨hs', hg, hlevel⟩ := sees_keeps hplain s b s' hs hP trivial hrun
    refine ⟨hs', hg, ?_⟩
    rcases b with _ | _ | id
    · trivial
    · trivial
    refine ⟨hlevel, ?_⟩
    obtain ⟨⟨b', t⟩, ht, he⟩ := Option.map_eq_some_iff.mp hrun
    cases he
    rw [ClaimStatement.run] at ht
    split at ht
    · obtain ⟨⟨o, t₁⟩, hins, he⟩ := Option.map_eq_some_iff.mp ht
      cases he
      obtain ⟨-, ⟨hnone, -⟩ | ⟨hid, rfl, -⟩⟩ := Table.insertFresh_cases hins
      · cases hnone
      · cases hid
        exact ⟨_, Table.draft_put, rfl, rfl, rfl⟩
    · cases ht
  · rcases b with _ | _ | id
    · exact fun s _ _ => trivial
    · exact fun s _ _ => trivial
    · exact fun s _ h => h

/-- The queries that decide nothing, after a claim has been decided. -/
theorem allowsBadge_settled : AllowsBadge fun {_} q =>
    (ownersContract atlas).Keeps
      (level.and (settled id φ) : Assertion (ownersContract atlas) i) q where
  verification _ _ _ _ := sees_settled_keeps trivial trivial

/-- **When a claim has been opened, what its process sees is level.** -/
theorem safe_openRow :
    Safe (Assertion.onOk (fun _ => level) fun _ => .any)
      (openRow atlas contractorId userId method evidence requestId).run
      (level : Assertion (ownersContract atlas) i) := by
  refine Safe.look_keep fun target => ?_
  rcases target with _ | _ | _
  · exact fun s _ _ => trivial
  · refine Safe.look_keep fun owned => ?_
    show Safe _ (if owned.isSome then _ else _ : Registering Claim).run _
    split
    · exact fun s _ _ => trivial
    refine Safe.andThen _ safe_claimsOpen fun id => ?_
    refine Safe.keep_andThen (each_record (drafted_keeps trivial trivial)) (fun _ _ _ _ => trivial)
      fun _ => ?_
    refine Safe.andThen _ safe_claimsDecide_drafted fun hit => ?_
    refine Safe.andThen _ safe_attachClaimant fun attached => ?_
    cases attached with
    | false => exact fun s _ _ => trivial
    | true =>
      refine Safe.query_keep (sees_settled_keeps trivial trivial) fun granted => ?_
      refine Safe.keep_andThen (each_recompute allowsBadge_settled) (fun _ _ _ _ => trivial)
        fun outcome => ?_
      refine Safe.keep_andThen (each_record (sees_settled_keeps trivial trivial))
        (fun _ _ _ _ => trivial) fun _ => Safe.look_keep fun approved => ?_
      cases approved with
      | none => exact fun s _ _ => trivial
      | some approved => exact fun s _ h => h.1
  · exact fun s _ _ => trivial

/-- A listing is given to who has the claim that was approved. -/
theorem safe_transfer {claim : Claim} :
    Safe (Assertion.onOk (fun _ => level.and (settled id φ)) fun _ => .any)
      (transfer approve claim adminId).run
      ((sees (Given (verdict approve).1 claim.contractorId claim.userId)).and (settled id φ) :
        Assertion (ownersContract atlas) i) := by
  cases approve with
  | true =>
    refine Safe.andThen _ safe_attachClaimant fun attached => ?_
    cases attached with
    | false => exact fun s _ _ => trivial
    | true => exact Safe.query_keep (sees_settled_keeps trivial trivial) fun _ s _ h => h
  | false =>
    have hrejected : (verdict false).1 ≠ .approved := by decide
    exact fun s _ h => ⟨level_of_not_approved hrejected h.1, h.2⟩

/-- **When a claim has been decided, what its process sees is level.** -/
theorem safe_decideRow :
    Safe (Assertion.onOk
        (fun _ => level.and (settled id (DecidedBy (verdict approve) adminId))) fun _ => .any)
      (decideRow atlas id approve adminId note requestId).run
      (level : Assertion (ownersContract atlas) i) := by
  refine Safe.look_andThen
    (Assertion.onSome fun claim : Claim => level.and (known id claim.contractorId claim.userId))
    (fun s _ hP => ?_) fun o => ?_
  · rcases hrow : s.claims.row i id with _ | claim
    · trivial
    · exact ⟨hP, claim, hrow, rfl, rfl⟩
  · cases o with
    | none => exact fun s _ _ => trivial
    | some claim =>
      show Safe _ (if claim.status ≠ .pending then _ else _ : Registering Outcome).run _
      split
      · exact fun s _ _ => trivial
      refine Safe.andThen _ safe_claimsDecide fun hit => ?_
      cases hit with
      | false => exact fun s _ _ => trivial
      | true =>
        refine Safe.andThen _ safe_transfer fun _ => ?_
        refine Safe.keep_andThen (p := recordCheck _) ⟨sees_settled_keeps trivial trivial, ?_⟩
          (fun _ _ _ _ => trivial) fun _ => ?_
        · intro id
          cases id <;> trivial
        refine Safe.keep_andThen (each_recompute allowsBadge_settled) (fun _ _ _ _ => trivial)
          fun outcome => ?_
        exact Safe.keep_andThen (each_record (sees_settled_keeps trivial trivial))
          (fun _ _ _ _ => trivial) fun _ s _ h => h

end Rows

end Marketplace.Registry
